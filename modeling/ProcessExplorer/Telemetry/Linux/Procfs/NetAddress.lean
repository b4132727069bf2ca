import ProcessExplorer.Telemetry.Linux.Procfs.Net

/-! The address fields of net/tcp and its like: as the kernel prints them, what
they decode to, and which texts pass for one. -/
namespace ProcessExplorer.Telemetry.Linux
open Library Model

/-- The octets of an address in network order. -/
inductive IpAddress where
  | v4 (a b c d : UInt8)
  | v6 (octets : { octets : List UInt8 // octets.length = 16 })
  deriving DecidableEq

namespace IpAddress

def octets : IpAddress → List UInt8
  | v4 a b c d => [a, b, c, d]
  | v6 octets => octets.1

/-- As the standard library displays it. -/
def display : IpAddress → Text
  | v4 a b c d => IpText.dotted a b c d
  | v6 octets => IpText.ipv6 (segmentsOf octets.1)

end IpAddress

/-- Four octets as a little-endian machine reads them as one word. -/
def littleEndian (a b c d : UInt8) : ℕ := a.toNat + 256 * b.toNat + 65536 * c.toNat + 16777216 * d.toNat

/-- Each 32-bit word by %08X. -/
def printedWords : List UInt8 → Text
  | a :: b :: c :: d :: rest => Text.upperHex 8 (littleEndian a b c d) ++ printedWords rest
  | _ => []

/-- A field as the kernel prints it. -/
def IpAddress.printed (addr : IpAddress) (port : UInt16) : Text :=
  printedWords addr.octets ++ ':' :: Text.upperHex 4 port.toNat

example : (IpAddress.v4 127 0 0 1).printed 8080 = "0100007F:1F90".toList := by decide

def hexByte (byte : UInt8) : Text := Text.upperHex 2 byte.toNat

theorem upperHex_littleEndian (a b c d : UInt8) :
    Text.upperHex 8 (littleEndian a b c d) = [d, c, b, a].flatMap hexByte := by
  have ha := a.toNat_lt
  have hb := b.toNat_lt
  have hc := c.toNat_lt
  have hd := d.toNat_lt
  simp only [Text.upperHex, hexByte, List.flatMap_cons, List.flatMap_nil, List.nil_append, List.append_nil,
    List.cons_append, Nat.div_div_eq_div_mul, List.cons.injEq, and_true, littleEndian]
  -- each digit of the word is a digit of one octet
  refine ⟨congrArg _ ?_, congrArg _ ?_, congrArg _ ?_, congrArg _ ?_, congrArg _ ?_, congrArg _ ?_,
    congrArg _ ?_, congrArg _ ?_⟩ <;> omega

/-- The kernel's words are the octets two digits each, swapped within each word. -/
theorem printedWords_eq (octets : List UInt8) (h : 4 ∣ octets.length) :
    printedWords octets = (swapWords octets).flatMap hexByte := by
  induction octets using swapWords.induct with
  | case1 a b c d rest ih =>
    rw [printedWords, swapWords, upperHex_littleEndian, ih (by simpa using h)]
    simp
  | case2 rest hshort =>
    rcases rest with _ | ⟨a, _ | ⟨b, _ | ⟨c, _ | ⟨d, rest⟩⟩⟩⟩
    · rfl
    · exact absurd h (show ¬ 4 ∣ 1 by decide)
    · exact absurd h (show ¬ 4 ∣ 2 by decide)
    · exact absurd h (show ¬ 4 ∣ 3 by decide)
    · exact absurd rfl (hshort a b c d rest)

theorem utf8Size_upperDigit : ∀ d < 16, (Text.upperDigit d).utf8Size = 1 := by decide

/-- Octets printed two digits each are read back. -/
theorem hexBytes_returns (bad : TelemetryError) (bytes : List UInt8) :
    (hexBytes bad (bytes.flatMap hexByte)).Returns bytes := by
  induction bytes with
  | nil => rfl
  | cons byte bytes ih =>
    have htext : hexByte byte = [Text.upperDigit (byte.toNat / 16 % 16), Text.upperDigit (byte.toNat % 16)] := rfl
    have hhigh := utf8Size_upperDigit _ (Nat.mod_lt (byte.toNat / 16) (by decide))
    have hlow := utf8Size_upperDigit _ (Nat.mod_lt byte.toNat (by decide))
    have hparse := Text.parseHexU8_upperHex byte
    rw [← hexByte, htext] at hparse
    rw [List.flatMap_cons, htext, List.cons_append, List.cons_append, List.nil_append, hexBytes, hhigh, hlow]
    rw [if_neg (by decide), if_pos ⟨rfl, rfl⟩, hparse]
    exact (returns_bind _ _ _).mpr ⟨bytes, ih, rfl⟩

theorem swapWords_swapWords (octets : List UInt8) : swapWords (swapWords octets) = octets := by
  induction octets using swapWords.induct with
  | case1 a b c d rest ih => rw [swapWords, swapWords, ih]
  | case2 rest hshort =>
    have hsame : swapWords rest = rest := by rw [swapWords]; exact hshort
    rw [hsame, hsame]

theorem IpAddress.four_dvd_length (addr : IpAddress) : 4 ∣ addr.octets.length := by
  cases addr with
  | v4 a b c d => exact ⟨1, rfl⟩
  | v6 octets => exact octets.2 ▸ (by decide : 4 ∣ 16)

theorem decodeHexAddr_printedWords (addr : IpAddress) (path : String) :
    (decodeHexAddr (printedWords addr.octets) path).Returns addr.display := by
  rw [decodeHexAddr, returns_bind]
  refine ⟨swapWords addr.octets, ?_, ?_⟩
  · rw [printedWords_eq _ addr.four_dvd_length]
    exact hexBytes_returns _ _
  · cases addr with
    | v4 a b c d => simp [IpAddress.octets, swapWords, IpAddress.display]
    | v6 octets =>
      have hlength : (swapWords octets.1).length = 16 := by rw [length_swapWords, octets.2]
      have hdisplay : (IpAddress.v6 octets).display = IpText.ipv6 (segmentsOf (swapWords (swapWords octets.1))) := by
        rw [swapWords_swapWords]
        rfl
      rw [hdisplay, show (IpAddress.v6 octets).octets = octets.1 from rfl]
      generalize swapWords octets.1 = bytes at hlength ⊢
      split
      · cases hlength
      · rw [if_pos hlength, returns_pure]

theorem colon_notMem_printedWords (octets : List UInt8) : ':' ∉ printedWords octets := by
  induction octets using printedWords.induct with
  | case1 a b c d rest ih =>
    rw [printedWords, List.mem_append, not_or]
    refine ⟨fun h => ?_, ih⟩
    obtain ⟨d, hd⟩ := Text.hexValue_of_mem_upperHex h
    cases hd
  | case2 rest h =>
    rw [printedWords]
    · exact List.not_mem_nil
    · exact h

theorem decodeHexAddrPort_printed (addr : IpAddress) (port : UInt16) (path : String) :
    (decodeHexAddrPort (addr.printed port) path).Returns
      (addr.display ++ ':' :: IpText.decimal port.toNat, port) := by
  rw [decodeHexAddrPort, IpAddress.printed,
    Text.splitOnce_append_cons (colon_notMem_printedWords addr.octets)]
  dsimp only
  rw [Text.parseHexU16_upperHex]
  exact (returns_bind _ _ _).mpr ⟨addr.display, decodeHexAddr_printedWords addr path, rfl⟩

theorem segment_inj {high low high' low' : UInt8}
    (h : UInt16.ofNat (256 * high.toNat + low.toNat) = UInt16.ofNat (256 * high'.toNat + low'.toNat)) :
    high = high' ∧ low = low' := by
  have hvalue {high low : UInt8} : (UInt16.ofNat (256 * high.toNat + low.toNat)).toNat =
      256 * high.toNat + low.toNat := UInt16.toNat_ofNat_of_lt' (by
    have hhigh := high.toNat_lt
    have hlow := low.toNat_lt
    change _ < 65536
    omega)
  have hsame := congrArg UInt16.toNat h
  rw [hvalue, hvalue] at hsame
  have hlow := low.toNat_lt
  have hlow' := low'.toNat_lt
  exact ⟨UInt8.toNat_inj.mp (by omega), UInt8.toNat_inj.mp (by omega)⟩

theorem segmentsOf_inj {n : ℕ} {octets octets' : List UInt8} (h : octets.length = 2 * n)
    (h' : octets'.length = 2 * n) (heq : segmentsOf octets = segmentsOf octets') : octets = octets' := by
  induction n generalizing octets octets' with
  | zero => rw [List.length_eq_zero_iff.mp h, List.length_eq_zero_iff.mp h']
  | succ n ih =>
    match octets, octets', h, h' with
    | high :: low :: rest, high' :: low' :: rest', h, h' =>
      simp only [List.length_cons] at h h'
      obtain ⟨hsegment, hrest⟩ := List.cons.inj heq
      obtain ⟨rfl, rfl⟩ := segment_inj hsegment
      rw [ih (by omega) (by omega) hrest]

/-- Neither two addresses of one family nor two of different families look alike. -/
theorem IpAddress.display_injective : Function.Injective IpAddress.display := by
  have hsegments (octets : { octets : List UInt8 // octets.length = 16 }) : (segmentsOf octets.1).length = 8 :=
    (segmentsOf_zero_iff (n := 8) octets.2).1
  have hfamily (a b c d : UInt8) (octets : { octets : List UInt8 // octets.length = 16 }) :
      (v4 a b c d).display ≠ (v6 octets).display := fun h => by
    have hcolon := IpText.colon_mem_ipv6 (hsegments octets)
    rw [show IpText.ipv6 (segmentsOf octets.1) = IpText.dotted a b c d from h.symm] at hcolon
    exact IpText.notMem_dotted (by decide) (by decide) a b c d hcolon
  intro addr addr' h
  cases addr with
  | v4 a b c d =>
    cases addr' with
    | v4 a' b' c' d' =>
      obtain ⟨rfl, rfl, rfl, rfl⟩ := IpText.dotted_inj h
      rfl
    | v6 octets => exact absurd h (hfamily a b c d octets)
  | v6 octets =>
    cases addr' with
    | v4 a b c d => exact absurd h.symm (hfamily a b c d octets)
    | v6 octets' =>
      have hsame := IpText.ipv6_inj (hsegments octets) (hsegments octets') h
      rw [Subtype.ext (segmentsOf_inj (n := 8) octets.2 octets'.2 hsame)]

/-- The text a field decodes to, if it does. -/
def decodedText (field : Text) (path : String) : Option (Except TelemetryError Text) :=
  (decodeHexAddrPort field path).run.map (·.map Prod.fst)

/-- What the kernel prints is read back, no two endpoints share a text, and a text ends in its port. -/
theorem decode_printed_addresses (path : String) :
    (∀ addr port, (decodeHexAddrPort (IpAddress.printed addr port) path).Returns
      (addr.display ++ ':' :: IpText.decimal port.toNat, port)) ∧
    Function.Injective (fun endpoint : IpAddress × UInt16 => decodedText (endpoint.1.printed endpoint.2) path) ∧
    ∀ field text port, (decodeHexAddrPort field path).Returns (text, port) →
      ∃ colon, Text.rfind ':' text = some colon ∧ text.drop (colon + 1) = IpText.decimal port.toNat := by
  refine ⟨fun addr port => decodeHexAddrPort_printed addr port path, ?_, ?_⟩
  · rintro ⟨addr, port⟩ ⟨addr', port'⟩ h
    have htext (addr : IpAddress) (port : UInt16) : decodedText (addr.printed port) path =
        some (.ok (addr.display ++ ':' :: IpText.decimal port.toNat)) := by
      rw [decodedText, decodeHexAddrPort_printed addr port path]
      rfl
    simp only [htext, Option.some.injEq, Except.ok.injEq] at h
    obtain ⟨haddr, hport⟩ := IpText.last_field_inj (IpText.notMem_decimal rfl _) (IpText.notMem_decimal rfl _) h
    rw [IpAddress.display_injective haddr, UInt16.toNat_inj.mp (IpText.decimal_inj hport)]
  · intro field text port h
    obtain ⟨_, _, addr, -, -, -, rfl⟩ := decodeHexAddrPort_returns h
    refine ⟨addr.length, Text.rfind_append_cons (IpText.notMem_decimal rfl _), ?_⟩
    rw [← List.drop_drop, List.drop_left]
    rfl

end ProcessExplorer.Telemetry.Linux
