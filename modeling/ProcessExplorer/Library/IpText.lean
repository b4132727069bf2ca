import Mathlib.Data.List.Basic
import ProcessExplorer.Library.Text

/-! Addresses as the Rust standard library displays them, and which of them display as unspecified. -/
namespace ProcessExplorer.Library.IpText

def decimal (n : Nat) : Text := Nat.toDigits 10 n

/-- Four octets, with dots between them. -/
def dotted (a b c d : UInt8) : Text :=
  decimal a.toNat ++ '.' :: (decimal b.toNat ++ '.' :: (decimal c.toNat ++ '.' :: decimal d.toNat))

/-- A run of segments. -/
structure Span where
  start : Nat
  len : Nat

/-- The first of the longest runs of zero segments. -/
def zeroSpan (segments : List UInt16) : Span := go 0 ⟨0, 0⟩ ⟨0, 0⟩ segments
where
  go (i : Nat) (longest current : Span) : List UInt16 → Span
    | [] => longest
    | segment :: rest =>
      if segment = 0 then
        let current : Span := ⟨if current.len = 0 then i else current.start, current.len + 1⟩
        go (i + 1) (if longest.len < current.len then current else longest) current rest
      else go (i + 1) longest ⟨0, 0⟩ rest

/-- Segments in lower-case hexadecimal, with colons between them. -/
def colonSeparated : List UInt16 → Text
  | [] => []
  | [segment] => Nat.toDigits 16 segment.toNat
  | segment :: rest => Nat.toDigits 16 segment.toNat ++ ':' :: colonSeparated rest

/-- Two or more zero segments are left out once; an address that maps an IPv4 address shows it. -/
def ipv6 : List UInt16 → Text
  | [0, 0, 0, 0, 0, 0xffff, high, low] =>
    "::ffff:".toList ++ dotted (high >>> 8).toUInt8 high.toUInt8 (low >>> 8).toUInt8 low.toUInt8
  | segments =>
    let zeros := zeroSpan segments
    if 1 < zeros.len then
      colonSeparated (segments.take zeros.start) ++
        ':' :: ':' :: colonSeparated (segments.drop (zeros.start + zeros.len))
    else colonSeparated segments

example : ipv6 [0x2001, 0xdb8, 0, 0, 1, 0, 0, 0] = "2001:db8:0:0:1::".toList := by decide

example : ipv6 [0, 0, 0, 0, 0, 0xffff, 0x7f00, 1] = "::ffff:127.0.0.1".toList := by decide

/-- What stands before the first separator, and what after it, is unique. -/
theorem first_field_inj {α : Type} {sep : α} {x y t u : List α} (hx : sep ∉ x) (hy : sep ∉ y)
    (h : x ++ sep :: t = y ++ sep :: u) : x = y ∧ t = u := by
  induction x generalizing y with
  | nil =>
    cases y with
    | nil => exact ⟨rfl, (List.cons.inj h).2⟩
    | cons c y => exact absurd ((List.cons.inj h).1 ▸ List.mem_cons_self ..) hy
  | cons c x ih =>
    cases y with
    | nil => exact absurd ((List.cons.inj h).1 ▸ List.mem_cons_self ..) hx
    | cons c' y =>
      obtain ⟨rfl, htail⟩ := List.cons.inj h
      obtain ⟨rfl, rfl⟩ := ih (List.not_mem_of_not_mem_cons hx) (List.not_mem_of_not_mem_cons hy) htail
      exact ⟨rfl, rfl⟩

/-- So is what stands around the last one. -/
theorem last_field_inj {α : Type} {sep : α} {x y t u : List α} (ht : sep ∉ t) (hu : sep ∉ u)
    (h : x ++ sep :: t = y ++ sep :: u) : x = y ∧ t = u := by
  have hrev := congrArg List.reverse h
  simp only [List.reverse_append, List.reverse_cons, List.append_assoc, List.singleton_append] at hrev
  obtain ⟨h1, h2⟩ := first_field_inj (by simpa using ht) (by simpa using hu) hrev
  exact ⟨List.reverse_inj.mp h2, List.reverse_inj.mp h1⟩

theorem notMem_decimal {c : Char} (hc : c.isDigit = false) (n : Nat) : c ∉ decimal n := by
  intro h
  have hdigit : c.isDigit := Nat.isDigit_of_mem_toDigits (by decide) (by decide) h
  rw [hc] at hdigit
  cases hdigit

theorem decimal_eq_zero_iff (n : Nat) : decimal n = ['0'] ↔ n = 0 := by
  constructor
  · intro h
    have hvalue := Nat.ofDigitChars_ten_toDigits (n := n)
    rw [← decimal, h] at hvalue
    exact hvalue.symm
  · rintro rfl
    rfl

theorem dotted_eq_zeros_iff (a b c d : UInt8) :
    dotted a b c d = "0.0.0.0".toList ↔ a = 0 ∧ b = 0 ∧ c = 0 ∧ d = 0 := by
  have hdot (n : UInt8) : '.' ∉ decimal n.toNat := notMem_decimal rfl _
  have hzero (n : UInt8) : decimal n.toNat = ['0'] ↔ n = 0 :=
    (decimal_eq_zero_iff _).trans ⟨fun h => UInt8.toNat_inj.mp h, fun h => h ▸ rfl⟩
  constructor
  · intro h
    obtain ⟨ha, h⟩ := first_field_inj (y := ['0']) (hdot a) (by decide) h
    obtain ⟨hb, h⟩ := first_field_inj (y := ['0']) (hdot b) (by decide) h
    obtain ⟨hc, hd⟩ := first_field_inj (y := ['0']) (hdot c) (by decide) h
    exact ⟨(hzero a).mp ha, (hzero b).mp hb, (hzero c).mp hc, (hzero d).mp hd⟩
  · rintro ⟨rfl, rfl, rfl, rfl⟩
    decide

theorem dot_mem_dotted (a b c d : UInt8) : '.' ∈ dotted a b c d :=
  List.mem_append_right _ (List.mem_cons_self ..)

theorem length_colonSeparated (segments : List UInt16) :
    segments.length ≤ (colonSeparated segments).length := by
  induction segments with
  | nil => exact Nat.zero_le _
  | cons segment rest ih =>
    have hpos : 0 < (Nat.toDigits 16 segment.toNat).length := Nat.length_toDigits_pos
    cases rest with
    | nil => exact hpos
    | cons next rest =>
      simp only [colonSeparated, List.length_append, List.length_cons] at ih ⊢
      omega

/-- The segments of a span are zero. -/
def IsZeroSpan (segments : List UInt16) (span : Span) : Prop :=
  ∀ k, span.start ≤ k → k < span.start + span.len → segments[k]? = some 0

/-- A span that ends here is one segment longer after a zero segment. -/
theorem IsZeroSpan.extend {before rest : List UInt16} {current : Span}
    (h : IsZeroSpan (before ++ 0 :: rest) current)
    (hend : current.len ≠ 0 → current.start + current.len = before.length) :
    IsZeroSpan (before ++ 0 :: rest)
      ⟨if current.len = 0 then before.length else current.start, current.len + 1⟩ := by
  intro k h1 h2
  by_cases hk : k = before.length
  · simp [hk]
  · apply h k <;> grind

/-- The span that is found is one of zeros: the loop only ever extends those. -/
theorem isZeroSpan_zeroSpan (segments : List UInt16) : IsZeroSpan segments (zeroSpan segments) := by
  have hgo (before rest : List UInt16) (longest current : Span) (hlongest : IsZeroSpan (before ++ rest) longest)
      (hcurrent : IsZeroSpan (before ++ rest) current)
      (hend : current.len ≠ 0 → current.start + current.len = before.length) :
      IsZeroSpan (before ++ rest) (zeroSpan.go before.length longest current rest) := by
    induction rest generalizing before longest current with
    | nil => exact hlongest
    | cons segment rest ih =>
      have hsplit : before ++ segment :: rest = before ++ [segment] ++ rest := by simp
      have hlength : before.length + 1 = (before ++ [segment]).length := by simp
      rw [zeroSpan.go, hlength]
      split
      · subst segment
        have hextended := hcurrent.extend hend
        rw [hsplit] at hlongest hextended ⊢
        apply ih
        · dsimp only
          split
          · exact hextended
          · exact hlongest
        · exact hextended
        · intro _
          dsimp only
          rw [List.length_append, List.length_singleton]
          split
          · omega
          · have := hend ‹_›
            omega
      · rw [hsplit] at hlongest ⊢
        apply ih
        · exact hlongest
        · intro k h1 h2
          simp at h2
        · intro h
          exact absurd rfl h
  exact hgo [] segments _ _ (fun k _ h => by simp at h) (fun k _ h => by simp at h) (fun h => absurd rfl h)

theorem eq_nil_of_length_colonSeparated {segments : List UInt16} (h : (colonSeparated segments).length = 0) :
    segments = [] := by
  have hle := length_colonSeparated segments
  exact List.length_eq_zero_iff.mp (by omega)

/-- Only the address with no segment but zeros displays as two colons. -/
theorem ipv6_eq_colons_iff {segments : List UInt16} (hlength : segments.length = 8) :
    ipv6 segments = [':', ':'] ↔ ∀ segment ∈ segments, segment = 0 := by
  constructor
  · intro h
    rw [ipv6.eq_def] at h
    split at h
    · have := congrArg List.length h
      simp at this
    · dsimp only at h
      split at h
      · rename_i hlen
        -- Nothing stands before the span or after it.
        have hlengths := congrArg List.length h
        simp only [List.length_append, List.length_cons, List.length_nil] at hlengths
        have hbefore : segments.take (zeroSpan segments).start = [] :=
          eq_nil_of_length_colonSeparated (by omega)
        have hafter : segments.drop ((zeroSpan segments).start + (zeroSpan segments).len) = [] :=
          eq_nil_of_length_colonSeparated (by omega)
        have hstart : (zeroSpan segments).start = 0 := by
          have hmin := congrArg List.length hbefore
          simp only [List.length_take, List.length_nil] at hmin
          omega
        have hend := List.drop_eq_nil_iff.mp hafter
        intro segment hm
        obtain ⟨k, hk⟩ := List.mem_iff_getElem?.mp hm
        have hlt := (List.getElem?_eq_some_iff.mp hk).1
        have hzero := isZeroSpan_zeroSpan segments k (by omega) (by omega)
        exact Option.some.inj (hk.symm.trans hzero)
      · have := length_colonSeparated segments
        rw [h, hlength] at this
        simp at this
  · intro h
    obtain rfl := List.eq_replicate_iff.mpr ⟨hlength, h⟩
    decide

theorem colon_mem_colonSeparated {segments : List UInt16} (h : 1 < segments.length) :
    ':' ∈ colonSeparated segments := by
  match segments, h with
  | segment :: next :: rest, _ => exact List.mem_append_right _ (List.mem_cons_self ..)

theorem colon_mem_ipv6 {segments : List UInt16} (hlength : segments.length = 8) : ':' ∈ ipv6 segments := by
  rw [ipv6.eq_def]
  split
  · exact List.mem_append_left _ (by decide)
  · dsimp only
    split
    · exact List.mem_append_right _ (List.mem_cons_self ..)
    · exact colon_mem_colonSeparated (by omega)

section Injective

theorem decimal_inj {m n : Nat} (h : decimal m = decimal n) : m = n := Text.toDigits_inj h

theorem dotted_inj {a b c d a' b' c' d' : UInt8} (h : dotted a b c d = dotted a' b' c' d') :
    a = a' ∧ b = b' ∧ c = c' ∧ d = d' := by
  have hdot (n : UInt8) : '.' ∉ decimal n.toNat := notMem_decimal rfl _
  have hinj {m n : UInt8} (h : decimal m.toNat = decimal n.toNat) : m = n := UInt8.toNat_inj.mp (decimal_inj h)
  obtain ⟨ha, h⟩ := first_field_inj (hdot a) (hdot a') h
  obtain ⟨hb, h⟩ := first_field_inj (hdot b) (hdot b') h
  obtain ⟨hc, hd⟩ := first_field_inj (hdot c) (hdot c') h
  exact ⟨hinj ha, hinj hb, hinj hc, hinj hd⟩

theorem notMem_dotted {c : Char} (hc : c.isDigit = false) (hdot : c ≠ '.') (a b d e : UInt8) :
    c ∉ dotted a b d e := by
  simp only [dotted, List.mem_append, List.mem_cons, not_or]
  exact ⟨notMem_decimal hc _, hdot, notMem_decimal hc _, hdot, notMem_decimal hc _, hdot, notMem_decimal hc _⟩

/-- One segment as it is displayed. -/
abbrev hexText (segment : UInt16) : Text := Nat.toDigits 16 segment.toNat

theorem notMem_hexText {c : Char} (hc : Text.hexValue c = none) (segment : UInt16) : c ∉ hexText segment := by
  intro h
  obtain ⟨d, hd⟩ := Text.hexValue_of_mem_toDigits h
  rw [hc] at hd
  cases hd

theorem dot_notMem_colonSeparated (segments : List UInt16) : '.' ∉ colonSeparated segments := by
  induction segments with
  | nil => exact List.not_mem_nil
  | cons segment rest ih =>
    have hsegment : '.' ∉ hexText segment := notMem_hexText (by decide) segment
    cases rest with
    | nil => exact hsegment
    | cons next rest =>
      simp only [colonSeparated, List.mem_append, List.mem_cons, not_or]
      exact ⟨hsegment, by decide, ih⟩

/-- Splitting at the colons gives the segments back. -/
theorem splitOn_colonSeparated {segments : List UInt16} (h : segments ≠ []) :
    (colonSeparated segments).splitOn ':' = segments.map hexText := by
  induction segments with
  | nil => exact absurd rfl h
  | cons segment rest ih =>
    have hsegment : ':' ∉ hexText segment := notMem_hexText (by decide) segment
    cases rest with
    | nil => exact List.splitOn_eq_singleton hsegment
    | cons next rest =>
      rw [colonSeparated, List.splitOn_append_cons_self_of_not_mem hsegment, ih (List.cons_ne_nil _ _)]
      · rfl
      · exact List.cons_ne_nil _ _

theorem nil_notMem_map_hexText (segments : List UInt16) : [] ∉ segments.map hexText := by
  intro h
  obtain ⟨segment, _, hs⟩ := List.mem_map.mp h
  exact Nat.toDigits_ne_nil hs

theorem hexText_injective : Function.Injective hexText := fun _ _ h =>
  UInt16.toNat_inj.mp (Text.toDigits_sixteen_inj h)

theorem colonSeparated_inj {s t : List UInt16} (h : colonSeparated s = colonSeparated t) : s = t := by
  by_cases hs : s = []
  · subst hs
    exact (eq_nil_of_length_colonSeparated (congrArg List.length h.symm)).symm
  by_cases ht : t = []
  · subst ht
    exact eq_nil_of_length_colonSeparated (congrArg List.length h)
  have hsplit := congrArg (List.splitOn ':') h
  rw [splitOn_colonSeparated hs, splitOn_colonSeparated ht] at hsplit
  exact hexText_injective.list_map hsplit

theorem splitOn_colon_inj {t u : Text} (h : t.splitOn ':' = u.splitOn ':') : t = u := by
  have ht : [':'].intercalate (t.splitOn ':') = t := List.intercalate_splitOn ':'
  rw [← ht, h, List.intercalate_splitOn]

/-- The place of the two colons is where the first empty piece is. -/
theorem compressed_inj {s t s' t' : List UInt16}
    (h : colonSeparated s ++ ':' :: ':' :: colonSeparated t = colonSeparated s' ++ ':' :: ':' :: colonSeparated t') :
    s = s' ∧ t = t' := by
  have hsplit := congrArg (List.splitOn ':') h
  have hcolon (t : List UInt16) : List.splitOn ':' (':' :: colonSeparated t) = [] :: (colonSeparated t).splitOn ':' :=
    List.splitOn_append_cons_self [] _
  rw [List.splitOn_append_cons_self, List.splitOn_append_cons_self, hcolon, hcolon] at hsplit
  have htail {t t' : List UInt16} (h : (colonSeparated t).splitOn ':' = (colonSeparated t').splitOn ':') : t = t' :=
    colonSeparated_inj (splitOn_colon_inj h)
  -- an empty piece comes first when nothing stands before the two colons
  have hempty {s : List UInt16} {rest rest' : List Text} (h : [[]] ++ rest = s.map hexText ++ rest') : s = [] := by
    cases s with
    | nil => rfl
    | cons segment s => exact absurd (List.cons.inj h).1.symm Nat.toDigits_ne_nil
  by_cases hs : s = []
  · subst hs
    by_cases hs' : s' = []
    · subst hs'
      exact ⟨rfl, htail (by simpa using hsplit)⟩
    · rw [splitOn_colonSeparated hs'] at hsplit
      exact absurd (hempty hsplit) hs'
  · rw [splitOn_colonSeparated hs] at hsplit
    by_cases hs' : s' = []
    · subst hs'
      exact absurd (hempty hsplit.symm) hs
    · rw [splitOn_colonSeparated hs'] at hsplit
      obtain ⟨hmap, hrest⟩ := first_field_inj (nil_notMem_map_hexText s) (nil_notMem_map_hexText s') hsplit
      exact ⟨hexText_injective.list_map hmap, htail hrest⟩

/-- A span of zeros that is not empty ends within the segments. -/
theorem IsZeroSpan.end_le {segments : List UInt16} {span : Span} (h : IsZeroSpan segments span)
    (hlen : 0 < span.len) : span.start + span.len ≤ segments.length := by
  have hlast := h (span.start + span.len - 1) (by omega) (by omega)
  have hlt := (List.getElem?_eq_some_iff.mp hlast).1
  omega

/-- The segments around a span of zeros, and the zeros. -/
theorem IsZeroSpan.split {segments : List UInt16} {span : Span} (h : IsZeroSpan segments span)
    (hlen : 0 < span.len) : segments = segments.take span.start ++ List.replicate span.len 0 ++
      segments.drop (span.start + span.len) := by
  have hend := h.end_le hlen
  have hzeros : (segments.drop span.start).take span.len = List.replicate span.len 0 := by
    apply List.eq_replicate_iff.mpr
    refine ⟨by simp; omega, fun segment hm => ?_⟩
    obtain ⟨k, hk, hget⟩ := List.mem_iff_getElem.mp hm
    have hklen : k < span.len := by
      simp only [List.length_take, List.length_drop] at hk
      omega
    rw [List.getElem_take, List.getElem_drop] at hget
    have hzero := h (span.start + k) (by omega) (by omega)
    rw [List.getElem?_eq_getElem (by omega), hget] at hzero
    exact Option.some.inj hzero
  rw [← hzeros, List.append_assoc, ← List.drop_drop, List.take_append_drop, List.take_append_drop]

/-- The three ways in which an address is displayed. -/
theorem ipv6_cases (segments : List UInt16) :
    (∃ high low, segments = [0, 0, 0, 0, 0, 0xffff, high, low] ∧ ipv6 segments = "::ffff:".toList ++
      dotted (high >>> 8).toUInt8 high.toUInt8 (low >>> 8).toUInt8 low.toUInt8) ∨
    (∃ before n after, segments = before ++ List.replicate n 0 ++ after ∧
      ipv6 segments = colonSeparated before ++ ':' :: ':' :: colonSeparated after) ∨
    ipv6 segments = colonSeparated segments := by
  rw [ipv6.eq_def]
  split
  · exact .inl ⟨_, _, rfl, rfl⟩
  · dsimp only
    split
    · next hlen =>
      exact .inr (.inl ⟨_, _, _, (isZeroSpan_zeroSpan segments).split (by omega), rfl⟩)
    · exact .inr (.inr rfl)

theorem halves_inj {m n : UInt16} (hhigh : (m >>> 8).toUInt8 = (n >>> 8).toUInt8) (hlow : m.toUInt8 = n.toUInt8) :
    m = n := by
  have hm := m.toNat_lt
  have hn := n.toNat_lt
  rw [← UInt8.toNat_inj, UInt16.toNat_toUInt8, UInt16.toNat_toUInt8, UInt16.toNat_shiftRight,
    UInt16.toNat_shiftRight] at hhigh
  rw [← UInt8.toNat_inj, UInt16.toNat_toUInt8, UInt16.toNat_toUInt8] at hlow
  have hshift : (8 : UInt16).toNat % 16 = 8 := by decide
  rw [hshift, Nat.shiftRight_eq_div_pow, Nat.shiftRight_eq_div_pow] at hhigh
  rw [← UInt16.toNat_inj]
  omega

/-- Two colons that stand together leave an empty piece between them. -/
theorem nil_mem_splitOn_compressed (before after : List UInt16) :
    [] ∈ (colonSeparated before ++ ':' :: ':' :: colonSeparated after).splitOn ':' := by
  rw [List.splitOn_append_cons_self]
  apply List.mem_append_right
  rw [show ':' :: colonSeparated after = [] ++ ':' :: colonSeparated after from rfl,
    List.splitOn_append_cons_self_of_not_mem List.not_mem_nil]
  exact List.mem_cons_self

theorem dot_notMem_compressed (before after : List UInt16) :
    '.' ∉ colonSeparated before ++ ':' :: ':' :: colonSeparated after := by
  simp only [List.mem_append, List.mem_cons, not_or]
  exact ⟨dot_notMem_colonSeparated before, by decide, by decide, dot_notMem_colonSeparated after⟩

theorem nil_notMem_splitOn_colonSeparated {segments : List UInt16} (h : segments ≠ []) :
    [] ∉ (colonSeparated segments).splitOn ':' := by
  rw [splitOn_colonSeparated h]
  exact nil_notMem_map_hexText segments

/-- Different addresses are displayed differently. -/
theorem ipv6_inj {s t : List UInt16} (hs : s.length = 8) (ht : t.length = 8) (h : ipv6 s = ipv6 t) : s = t := by
  have hsne : s ≠ [] := List.ne_nil_of_length_pos (by omega)
  have htne : t ≠ [] := List.ne_nil_of_length_pos (by omega)
  have hmapped (a b c d : UInt8) : '.' ∈ "::ffff:".toList ++ dotted a b c d :=
    List.mem_append_right _ (dot_mem_dotted a b c d)
  rcases ipv6_cases s with ⟨high, low, rfl, hstext⟩ | ⟨before, n, after, rfl, hstext⟩ | hstext <;>
    rcases ipv6_cases t with ⟨high', low', rfl, httext⟩ | ⟨before', n', after', rfl, httext⟩ | httext <;>
    rw [hstext, httext] at h
  · obtain ⟨h₁, h₂, h₃, h₄⟩ := dotted_inj (List.append_cancel_left h)
    rw [halves_inj h₁ h₂, halves_inj h₃ h₄]
  · exact absurd (h ▸ hmapped _ _ _ _) (dot_notMem_compressed before' after')
  · exact absurd (h ▸ hmapped _ _ _ _) (dot_notMem_colonSeparated t)
  · exact absurd (h ▸ hmapped _ _ _ _) (dot_notMem_compressed before after)
  · obtain ⟨rfl, rfl⟩ := compressed_inj h
    simp only [List.length_append, List.length_replicate] at hs ht
    rw [show n = n' by omega]
  · exact absurd (h ▸ nil_mem_splitOn_compressed before after) (nil_notMem_splitOn_colonSeparated htne)
  · exact absurd (h ▸ hmapped _ _ _ _) (dot_notMem_colonSeparated s)
  · exact absurd (h ▸ nil_mem_splitOn_compressed before' after') (nil_notMem_splitOn_colonSeparated hsne)
  · exact colonSeparated_inj h

end Injective

end ProcessExplorer.Library.IpText
