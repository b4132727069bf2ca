import ProcessExplorer.Library.Text

/-! Bytes that are not text, between bytes that are. An ASCII character ends whatever stands before it,
so what is between two of them is valid on its own. -/
namespace ProcessExplorer.Library.Text

/-- The bytes of a text. -/
def utf8 (t : Text) : List UInt8 := t.flatMap String.utf8EncodeChar

@[simp] theorem utf8_append (t u : Text) : utf8 (t ++ u) = utf8 t ++ utf8 u := List.flatMap_append

@[simp] theorem utf8_cons (c : Char) (t : Text) : utf8 (c :: t) = String.utf8EncodeChar c ++ utf8 t :=
  List.flatMap_cons

/-- Bytes are text when they decode. -/
def IsUtf8 (bytes : List UInt8) : Prop := ∃ t, utf8 t = bytes

theorem fromUtf8_utf8 (t : Text) : fromUtf8 (utf8 t).toByteArray = some t := by
  have hvalid : (utf8 t).toByteArray.IsValidUTF8 := .intro t rfl
  rw [fromUtf8, String.fromUTF8?, dif_pos hvalid]
  exact congrArg some String.toList_ofList

theorem fromUtf8_eq_none {bytes : List UInt8} (h : ¬ IsUtf8 bytes) : fromUtf8 bytes.toByteArray = none := by
  have hvalid : ¬ bytes.toByteArray.IsValidUTF8 := by
    rintro ⟨t, ht⟩
    exact h ⟨t, (List.toByteArray_inj.mp ht).symm⟩
  rw [fromUtf8, String.fromUTF8?, dif_neg hvalid]
  rfl

theorem isUtf8_iff (bytes : List UInt8) : (fromUtf8 bytes.toByteArray).isSome = true ↔ IsUtf8 bytes := by
  constructor
  · intro hsome
    by_contra h
    simp [fromUtf8_eq_none h] at hsome
  · rintro ⟨t, rfl⟩
    rw [fromUtf8_utf8, Option.isSome_some]

instance : DecidablePred IsUtf8 := fun bytes => decidable_of_iff _ (isUtf8_iff bytes)

theorem not_ofNat_lt {x n : ℕ} (h : 128 ≤ n) (hx : x < 256 - n) : ¬ UInt8.ofNat (x + n) < 128 := by
  rw [UInt8.lt_iff_toNat_lt, UInt8.toNat_ofNat_of_lt' (by change _ < 256; omega)]
  change ¬ x + n < 128
  omega

/-- An ASCII byte is a character by itself: it neither begins a longer one nor stands within one. -/
theorem ascii_alone {c : Char} {first : UInt8} {rest : List UInt8} (h : String.utf8EncodeChar c = first :: rest) :
    (first < 128 → rest = []) ∧ ∀ b ∈ rest, ¬ b < 128 := by
  have hlow (x : ℕ) : ¬ UInt8.ofNat (x % 0x40 + 0x80) < 128 :=
    not_ofNat_lt (by decide) (Nat.lt_of_lt_of_le (Nat.mod_lt x (by decide)) (by decide))
  rw [String.utf8EncodeChar] at h
  split at h
  · obtain ⟨rfl, rfl⟩ := List.cons.inj h
    simp
  · split at h
    · obtain ⟨rfl, rfl⟩ := List.cons.inj h
      have hlead := not_ofNat_lt (n := 0xc0) (by decide)
        (Nat.lt_of_lt_of_le (Nat.mod_lt (c.val.toNat / 64) (show 0x20 > 0 by decide)) (by decide))
      exact ⟨fun hlt => absurd hlt hlead, List.forall_mem_singleton.mpr (hlow _)⟩
    · split at h
      · obtain ⟨rfl, rfl⟩ := List.cons.inj h
        have hlead := not_ofNat_lt (n := 0xe0) (by decide)
          (Nat.lt_of_lt_of_le (Nat.mod_lt (c.val.toNat / 4096) (show 0x10 > 0 by decide)) (by decide))
        exact ⟨fun hlt => absurd hlt hlead,
          List.forall_mem_cons.mpr ⟨hlow _, List.forall_mem_singleton.mpr (hlow _)⟩⟩
      · obtain ⟨rfl, rfl⟩ := List.cons.inj h
        have hlead := not_ofNat_lt (n := 0xf0) (by decide)
          (Nat.lt_of_lt_of_le (Nat.mod_lt (c.val.toNat / 262144) (show 0x08 > 0 by decide)) (by decide))
        exact ⟨fun hlt => absurd hlt hlead, List.forall_mem_cons.mpr ⟨hlow _,
          List.forall_mem_cons.mpr ⟨hlow _, List.forall_mem_singleton.mpr (hlow _)⟩⟩⟩

/-- Where an ASCII byte stands in encoded text, the text has a boundary before it and after it. -/
theorem utf8_eq_append_cons {t : Text} {pre post : List UInt8} {b : UInt8} (hb : b < 128)
    (h : utf8 t = pre ++ b :: post) : IsUtf8 pre ∧ IsUtf8 post := by
  induction t generalizing pre with
  | nil => simp [utf8] at h
  | cons c t ih =>
    rw [utf8_cons] at h
    obtain ⟨first, rest, hc⟩ := List.exists_cons_of_ne_nil (String.utf8EncodeChar_ne_nil (c := c))
    obtain ⟨hfirst, hrest⟩ := ascii_alone hc
    rcases List.append_eq_append_iff.mp h with ⟨more, hpre, ht⟩ | ⟨more, hc', ht⟩
    · -- the character ends before the byte
      obtain ⟨⟨u, hu⟩, hpost⟩ := ih ht
      exact ⟨⟨c :: u, by rw [utf8_cons, hu, hpre]⟩, hpost⟩
    · cases more with
      | nil =>
        have hnext : utf8 t = [] ++ b :: post := ht.symm
        obtain ⟨⟨u, hu⟩, hpost⟩ := ih hnext
        rw [List.append_nil] at hc'
        exact ⟨⟨[c], by simp [utf8, hc']⟩, hpost⟩
      | cons b' more =>
        obtain ⟨rfl, rfl⟩ := List.cons.inj ht
        cases pre with
        | nil =>
          rw [hc', List.nil_append] at hc
          obtain ⟨rfl, rfl⟩ := List.cons.inj hc
          rw [hfirst hb]
          exact ⟨⟨[], rfl⟩, t, rfl⟩
        | cons p pre =>
          rw [hc', List.cons_append] at hc
          obtain ⟨rfl, rfl⟩ := List.cons.inj hc
          exact absurd hb (hrest b (by simp))

/-- Between two ASCII characters bytes are text when the whole is. -/
theorem isUtf8_between_iff {pre post : Text} {bytes : List UInt8} {b b' : UInt8} (hb : b < 128) (hb' : b' < 128)
    {opening closing : Char} (ho : String.utf8EncodeChar opening = [b])
    (hc : String.utf8EncodeChar closing = [b']) :
    IsUtf8 (utf8 pre ++ b :: (bytes ++ b' :: utf8 post)) ↔ IsUtf8 bytes := by
  constructor
  · rintro ⟨t, ht⟩
    obtain ⟨-, u, hu⟩ := utf8_eq_append_cons hb ht
    exact (utf8_eq_append_cons hb' hu).1
  · rintro ⟨t, rfl⟩
    exact ⟨pre ++ opening :: (t ++ closing :: post), by simp [ho, hc]⟩

end ProcessExplorer.Library.Text
