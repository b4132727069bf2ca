import ProcessExplorer.Telemetry.Linux.Procfs.NetAddress

/-! Which texts decode as an address field. The decoder slices two bytes at a
time and leaves the digits to an integer parser that takes a sign. -/
namespace ProcessExplorer.Telemetry.Linux
open Library Model

/-- 8 or 32 hexadecimal digits, a colon, and one digit or more of a number up to 65535. -/
def IsAddressField (field : Text) : Prop :=
  ∃ addr port, field = addr ++ ':' :: port ∧ (addr.length = 8 ∨ addr.length = 32) ∧
    (∀ c ∈ addr, (Text.hexValue c).isSome) ∧ port ≠ [] ∧ (∀ c ∈ port, (Text.hexValue c).isSome) ∧
    Text.hexNumber port ≤ 65535

/-- An address field decodes, and any other text is a parse error. -/
def DecodesExactly (field : Text) (path : String) : Prop :=
  (IsAddressField field → ∃ result, (decodeHexAddrPort field path).Returns result) ∧
  (¬ IsAddressField field → ∃ message, (decodeHexAddrPort field path).run = some (.error (.parse path message)))

/-- Two characters at a time that the integer parser takes: two digits, or a plus sign and one. -/
inductive AcceptedPairs : Text → Prop
  | nil : AcceptedPairs []
  | cons {c d : Char} {rest : Text} : (Text.parseHexU8 [c, d]).isSome → AcceptedPairs rest →
      AcceptedPairs (c :: d :: rest)

/-- The first two bytes end within a character or beyond the text. -/
def BadSlice : Text → Prop
  | [] => False
  | [c] => c.utf8Size ≠ 2
  | c :: d :: _ => c.utf8Size ≠ 2 ∧ ¬ (c.utf8Size = 1 ∧ d.utf8Size = 1)

/-- The decoder gets to such a slice. -/
def PanicSlice (addr : Text) : Prop := ∃ pairs rest, addr = pairs ++ rest ∧ AcceptedPairs pairs ∧ BadSlice rest

/-- The port passes, and the address breaks a slice or one of the two has a plus sign that passes. -/
def Misread (field : Text) : Prop :=
  ∃ addr port, Text.splitOnce ':' field = some (addr, port) ∧ (Text.parseHexU16 port).isSome ∧
    (PanicSlice addr ∨ AcceptedPairs addr ∧ (addr.length = 8 ∨ addr.length = 32) ∧ '+' ∈ addr ++ port)

section Address
variable {addr : Text}

/-- A plus sign is one byte, as a digit is. -/
theorem utf8Size_of_pair {c d : Char} (h : (Text.parseHexU8 [c, d]).isSome) : c.utf8Size = 1 ∧ d.utf8Size = 1 := by
  obtain ⟨hc, hd⟩ := Text.parseHexU8_pair_isSome_iff.mp h
  obtain ⟨n, hn⟩ := Option.isSome_iff_exists.mp hd
  refine ⟨?_, Text.utf8Size_of_hexValue hn⟩
  rcases hc with rfl | hc
  · decide
  · obtain ⟨m, hm⟩ := Option.isSome_iff_exists.mp hc
    exact Text.utf8Size_of_hexValue hm

theorem AcceptedPairs.returns (h : AcceptedPairs addr) (bad : TelemetryError) :
    ∃ bytes, (hexBytes bad addr).Returns bytes ∧ addr.length = 2 * bytes.length := by
  induction h with
  | nil => exact ⟨[], rfl, rfl⟩
  | @cons c d rest hpair _ ih =>
    obtain ⟨hc, hd⟩ := utf8Size_of_pair hpair
    obtain ⟨byte, hbyte⟩ := Option.isSome_iff_exists.mp hpair
    obtain ⟨bytes, hbytes, hlength⟩ := ih
    refine ⟨byte :: bytes, ?_, ?_⟩
    · rw [hexBytes, hc, hd, if_neg (by decide), if_pos ⟨rfl, rfl⟩, hbyte]
      exact (returns_bind _ _ _).mpr ⟨bytes, hbytes, rfl⟩
    · simp only [List.length_cons]
      omega

theorem PanicSlice.panics (h : PanicSlice addr) (bad : TelemetryError) : (hexBytes bad addr).run = none := by
  obtain ⟨pairs, rest, rfl, hpairs, hbad⟩ := h
  induction hpairs with
  | nil =>
    match rest, hbad with
    | [c], hbad =>
      rw [List.nil_append, hexBytes, if_neg hbad]
      rfl
    | c :: d :: rest, hbad =>
      rw [List.nil_append, hexBytes, if_neg hbad.1, if_neg hbad.2]
      rfl
  | @cons c d pairs hpair _ ih =>
    obtain ⟨hc, hd⟩ := utf8Size_of_pair hpair
    obtain ⟨byte, hbyte⟩ := Option.isSome_iff_exists.mp hpair
    rw [List.cons_append, List.cons_append, hexBytes, hc, hd, if_neg (by decide), if_pos ⟨rfl, rfl⟩, hbyte]
    simp [ih]

/-- Slices that all fit, one of which is no number. -/
theorem hexBytes_fails (bad : TelemetryError) (hpairs : ¬ AcceptedPairs addr) (hslices : ¬ PanicSlice addr) :
    (hexBytes bad addr).run = some (.error bad) := by
  induction addr using hexBytes.induct with
  | case1 => exact absurd .nil hpairs
  | case2 c hc =>
    rw [hexBytes, if_pos hc]
    rfl
  | case3 c hc => exact absurd ⟨[], [c], rfl, .nil, hc⟩ hslices
  | case4 c d rest hc =>
    rw [hexBytes, if_pos hc]
    rfl
  | case5 c d rest hc hsizes hparse =>
    rw [hexBytes, if_neg hc, if_pos hsizes, hparse]
    rfl
  | case6 c d rest hc hsizes byte hparse ih =>
    have hpair : (Text.parseHexU8 [c, d]).isSome := by rw [hparse]; rfl
    rw [hexBytes, if_neg hc, if_pos hsizes, hparse]
    have hslices' : ¬ PanicSlice rest := by
      rintro ⟨pairs, rest', rfl, hp, hbad⟩
      exact hslices ⟨c :: d :: pairs, rest', rfl, .cons hpair hp, hbad⟩
    have hrest := ih (fun h => hpairs (.cons hpair h)) hslices'
    simp [hrest, Except.map]
  | case7 c d rest hc hsizes => exact absurd ⟨[], c :: d :: rest, rfl, .nil, hc, hsizes⟩ hslices

/-- Without a plus sign what passes is digits, an even number of them. -/
theorem acceptedPairs_iff (hplus : '+' ∉ addr) :
    AcceptedPairs addr ↔ 2 ∣ addr.length ∧ ∀ c ∈ addr, (Text.hexValue c).isSome := by
  induction addr using List.twoStepInduction with
  | nil => exact iff_of_true .nil ⟨⟨0, rfl⟩, fun _ h => absurd h List.not_mem_nil⟩
  | singleton c => exact iff_of_false (fun h => by cases h) fun h => absurd h.1 (show ¬ 2 ∣ 1 by decide)
  | cons_cons c d rest ih _ =>
    simp only [List.mem_cons, not_or] at hplus
    obtain ⟨hc, hd, hrest⟩ := hplus
    have hpairs : AcceptedPairs (c :: d :: rest) ↔ (Text.parseHexU8 [c, d]).isSome ∧ AcceptedPairs rest :=
      ⟨fun h => by cases h with | cons hpair h => exact ⟨hpair, h⟩, fun h => .cons h.1 h.2⟩
    rw [hpairs, Text.parseHexU8_pair_isSome_iff, ih hrest, or_iff_right (Ne.symm hc)]
    simp only [List.length_cons, List.forall_mem_cons]
    constructor
    · rintro ⟨⟨hc, hd⟩, hdvd, hall⟩
      exact ⟨by omega, hc, hd, hall⟩
    · rintro ⟨hdvd, hc, hd, hall⟩
      exact ⟨⟨hc, hd⟩, by omega, hall⟩

theorem decodeHexAddr_panics {path : String} (h : PanicSlice addr) : (decodeHexAddr addr path).run = none := by
  rw [decodeHexAddr, ExceptT.run_bind, h.panics _]
  rfl

theorem decodeHexAddr_fails (path : String) (hslices : ¬ PanicSlice addr)
    (h : ¬ (AcceptedPairs addr ∧ (addr.length = 8 ∨ addr.length = 32))) :
    ∃ message, (decodeHexAddr addr path).run = some (.error (.parse path message)) := by
  by_cases hpairs : AcceptedPairs addr
  · obtain ⟨bytes, hbytes, hlength⟩ := hpairs.returns
      (parseErr path ("bad address hex '" ++ String.ofList addr ++ "'"))
    refine ⟨"unexpected address length in '" ++ String.ofList addr ++ "'", ?_⟩
    have hshort : bytes.length ≠ 4 ∧ bytes.length ≠ 16 :=
      ⟨fun h4 => h ⟨hpairs, by omega⟩, fun h16 => h ⟨hpairs, by omega⟩⟩
    rw [decodeHexAddr, ExceptT.run_bind, hbytes, Option.bind_eq_bind, Option.bind_some]
    dsimp only
    split
    · exact absurd rfl hshort.1
    · rw [if_neg hshort.2]
      rfl
  · refine ⟨"bad address hex '" ++ String.ofList addr ++ "'", ?_⟩
    rw [decodeHexAddr, ExceptT.run_bind, hexBytes_fails _ hpairs hslices]
    rfl

theorem decodeHexAddr_passes (path : String) (hpairs : AcceptedPairs addr)
    (hlength : addr.length = 8 ∨ addr.length = 32) : ∃ text, (decodeHexAddr addr path).Returns text := by
  obtain ⟨bytes, hbytes, hbytesLength⟩ := hpairs.returns
    (parseErr path ("bad address hex '" ++ String.ofList addr ++ "'"))
  simp only [decodeHexAddr, returns_bind]
  refine exists_comm.mp ⟨bytes, ?_⟩
  simp only [hbytes, true_and]
  split
  · exact ⟨_, rfl⟩
  · next hfour =>
    have hsixteen : bytes.length = 16 := by
      rcases hlength with h | h
      · have hfourBytes : bytes.length = 4 := by omega
        obtain ⟨a, b, c, d, rfl⟩ := List.length_eq_four.mp hfourBytes
        exact absurd rfl (hfour a b c d)
      · omega
    rw [if_pos hsixteen]
    exact ⟨_, rfl⟩

end Address

section Field
variable {field addr port : Text} {path : String}

theorem isAddressField_iff (hsplit : Text.splitOnce ':' field = some (addr, port)) :
    IsAddressField field ↔ (addr.length = 8 ∨ addr.length = 32) ∧ (∀ c ∈ addr, (Text.hexValue c).isSome) ∧
      port ≠ [] ∧ (∀ c ∈ port, (Text.hexValue c).isSome) ∧ Text.hexNumber port ≤ 65535 := by
  constructor
  · rintro ⟨addr', port', rfl, hlength, haddr, hport⟩
    have hcolon : ':' ∉ addr' := fun h => absurd (haddr ':' h) (by decide)
    rw [Text.splitOnce_append_cons hcolon] at hsplit
    obtain ⟨rfl, rfl⟩ := Prod.mk.inj (Option.some.inj hsplit)
    exact ⟨hlength, haddr, hport⟩
  · rintro ⟨hlength, haddr, hport⟩
    exact ⟨addr, port, (Text.splitOnce_eq_some hsplit).1, hlength, haddr, hport⟩

theorem not_isAddressField_of_none (hsplit : Text.splitOnce ':' field = none) : ¬ IsAddressField field := by
  rintro ⟨addr, port, rfl, -, haddr, -⟩
  have hcolon : ':' ∉ addr := fun h => absurd (haddr ':' h) (by decide)
  rw [Text.splitOnce_append_cons hcolon] at hsplit
  cases hsplit

/-- What is to become of a text that is no address field. -/
theorem decodesExactly_of_error (hno : ¬ IsAddressField field) (message : String)
    (h : (decodeHexAddrPort field path).run = some (.error (.parse path message))) : DecodesExactly field path :=
  ⟨fun hfield => absurd hfield hno, fun _ => ⟨message, h⟩⟩

theorem not_decodesExactly_of_panic (h : (decodeHexAddrPort field path).run = none) :
    ¬ DecodesExactly field path := by
  rintro ⟨hfield, hno⟩
  by_cases hf : IsAddressField field
  · obtain ⟨_, hr⟩ := hfield hf
    cases h.symm.trans hr
  · obtain ⟨_, he⟩ := hno hf
    cases h.symm.trans he

/-- Digits all over leave no room for a plus sign. -/
theorem plus_notMem (haddr : ∀ c ∈ addr, (Text.hexValue c).isSome)
    (hport : ∀ c ∈ port, (Text.hexValue c).isSome) : '+' ∉ addr ++ port := by
  intro h
  rcases List.mem_append.mp h with h | h
  · exact absurd (haddr '+' h) (by decide)
  · exact absurd (hport '+' h) (by decide)

theorem decodesExactly_of_bad_port (hsplit : Text.splitOnce ':' field = some (addr, port))
    (hport : Text.parseHexU16 port = none) : DecodesExactly field path := by
  have hno : ¬ IsAddressField field := by
    intro h
    obtain ⟨-, -, hne, hdigits, hle⟩ := (isAddressField_iff hsplit).mp h
    have hplus : '+' ∉ port := fun hm => absurd (hdigits '+' hm) (by decide)
    have hsome := (Text.parseHexU16_isSome_iff hplus).mpr ⟨hne, hdigits, hle⟩
    rw [hport] at hsome
    cases hsome
  refine decodesExactly_of_error hno ("bad port hex '" ++ String.ofList port ++ "'") ?_
  rw [decodeHexAddrPort, hsplit]
  dsimp only
  rw [hport]
  rfl

/-- With a port that passes, what is left is up to the address. -/
theorem decodeHexAddrPort_run {n : UInt16} (hsplit : Text.splitOnce ':' field = some (addr, port))
    (hport : Text.parseHexU16 port = some n) : (decodeHexAddrPort field path).run =
      (decodeHexAddr addr path).run.map fun result =>
        result.map fun text => (text ++ ':' :: IpText.decimal n.toNat, n) := by
  rw [decodeHexAddrPort, hsplit]
  dsimp only
  rw [hport]
  simp

/-- Where both parts pass, the signs decide. -/
theorem decodesExactly_iff_of_passes (hsplit : Text.splitOnce ':' field = some (addr, port))
    (hport : (Text.parseHexU16 port).isSome) (hpairs : AcceptedPairs addr)
    (hlength : addr.length = 8 ∨ addr.length = 32) : DecodesExactly field path ↔ '+' ∉ addr ++ port := by
  obtain ⟨n, hn⟩ := Option.isSome_iff_exists.mp hport
  obtain ⟨text, htext⟩ := decodeHexAddr_passes path hpairs hlength
  have hok : (decodeHexAddrPort field path).Returns (text ++ ':' :: IpText.decimal n.toNat, n) := by
    rw [Checked.Returns, decodeHexAddrPort_run hsplit hn, htext]
    rfl
  constructor
  · intro hexact hplus
    have hno : ¬ IsAddressField field := by
      intro hf
      obtain ⟨-, haddr, -, hdigits, -⟩ := (isAddressField_iff hsplit).mp hf
      exact plus_notMem haddr hdigits hplus
    obtain ⟨message, herror⟩ := hexact.2 hno
    cases hok.symm.trans herror
  · intro hplus
    rw [List.mem_append, not_or] at hplus
    have haddr := (acceptedPairs_iff hplus.1).mp hpairs
    have hdigits := (Text.parseHexU16_isSome_iff hplus.2).mp hport
    have hf : IsAddressField field := (isAddressField_iff hsplit).mpr ⟨hlength, haddr.2, hdigits⟩
    exact ⟨fun _ => ⟨_, hok⟩, fun hno => absurd hf hno⟩

/-- An address whose slices fit but that does not pass is no field, and an error. -/
theorem decodesExactly_of_bad_addr {n : UInt16} (hsplit : Text.splitOnce ':' field = some (addr, port))
    (hport : Text.parseHexU16 port = some n) (hslices : ¬ PanicSlice addr)
    (hpass : ¬ (AcceptedPairs addr ∧ (addr.length = 8 ∨ addr.length = 32))) : DecodesExactly field path := by
  obtain ⟨message, hmessage⟩ := decodeHexAddr_fails path hslices hpass
  have hno : ¬ IsAddressField field := by
    intro h
    obtain ⟨hlength, haddr, -, -, -⟩ := (isAddressField_iff hsplit).mp h
    have hplus : '+' ∉ addr := fun hm => absurd (haddr '+' hm) (by decide)
    exact hpass ⟨(acceptedPairs_iff hplus).mpr ⟨by omega, haddr⟩, hlength⟩
  refine decodesExactly_of_error hno message ?_
  rw [decodeHexAddrPort_run hsplit hport, hmessage]
  rfl

end Field

/-- A field is decoded exactly as its format says unless it breaks a slice or has a sign that passes. -/
theorem decodes_exactly_iff (field : Text) (path : String) : DecodesExactly field path ↔ ¬ Misread field := by
  cases hsplit : Text.splitOnce ':' field with
  | none =>
    have hmisread : ¬ Misread field := by
      rintro ⟨_, _, hsome, -⟩
      cases hsplit.symm.trans hsome
    refine iff_of_true (decodesExactly_of_error (not_isAddressField_of_none hsplit)
      ("expected 'addr:port', got '" ++ String.ofList field ++ "'") ?_) hmisread
    rw [decodeHexAddrPort, hsplit]
    rfl
  | some halves =>
    obtain ⟨addr, port⟩ := halves
    have hmisread : Misread field ↔ (Text.parseHexU16 port).isSome ∧ (PanicSlice addr ∨
        AcceptedPairs addr ∧ (addr.length = 8 ∨ addr.length = 32) ∧ '+' ∈ addr ++ port) := by
      constructor
      · rintro ⟨addr', port', hsome, h⟩
        obtain ⟨rfl, rfl⟩ := Prod.mk.inj (Option.some.inj (hsplit.symm.trans hsome))
        exact h
      · exact fun h => ⟨addr, port, hsplit, h⟩
    rw [hmisread]
    cases hport : Text.parseHexU16 port with
    | none => exact iff_of_true (decodesExactly_of_bad_port hsplit hport) (by simp)
    | some n =>
      by_cases hslices : PanicSlice addr
      · have hpanic : (decodeHexAddrPort field path).run = none := by
          rw [decodeHexAddrPort_run hsplit hport, decodeHexAddr_panics hslices]
          rfl
        exact iff_of_false (not_decodesExactly_of_panic hpanic) (not_not.mpr ⟨rfl, .inl hslices⟩)
      by_cases hpass : AcceptedPairs addr ∧ (addr.length = 8 ∨ addr.length = 32)
      · rw [decodesExactly_iff_of_passes hsplit (by rw [hport]; rfl) hpass.1 hpass.2]
        simp [hslices, hpass]
      · refine iff_of_true (decodesExactly_of_bad_addr hsplit hport hslices hpass) ?_
        rintro ⟨-, h | ⟨hpairs, hlength, -⟩⟩
        · exact hslices h
        · exact hpass ⟨hpairs, hlength⟩

/-- A ninth digit panics, and a plus sign in place of a digit decodes. -/
theorem address_fields_misread :
    ¬ DecodesExactly "0100007F0:1F90".toList "/proc/1/net/tcp" ∧
      ¬ DecodesExactly "+100007F:1F90".toList "/proc/1/net/tcp" := by
  have hpanic : (decodeHexAddrPort "0100007F0:1F90".toList "/proc/1/net/tcp").run = none := by rfl
  have hdecodes : (decodeHexAddrPort "+100007F:1F90".toList "/proc/1/net/tcp").Returns
      ("127.0.0.1:8080".toList, 8080) := by rfl
  refine ⟨not_decodesExactly_of_panic hpanic, fun hexact => ?_⟩
  have hno : ¬ IsAddressField "+100007F:1F90".toList := fun hf => by
    have hsplit : Text.splitOnce ':' "+100007F:1F90".toList = some ("+100007F".toList, "1F90".toList) := by decide
    have hdigits := (isAddressField_iff hsplit).mp hf
    exact absurd (hdigits.2.1 '+' (by decide)) (by decide)
  obtain ⟨message, herror⟩ := hexact.2 hno
  cases hdecodes.symm.trans herror

end ProcessExplorer.Telemetry.Linux
