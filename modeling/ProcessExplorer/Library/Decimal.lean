import Mathlib.Data.List.TakeWhile
import ProcessExplorer.Library.Binary64
import ProcessExplorer.Library.Text

/-! Decimal numbers as text, and the double that is read from one. -/
namespace ProcessExplorer.Library

/-- A binary64 value. The two zeros are not told apart. -/
inductive Double where
  | finite (value : ℚ)
  | infinite (negative : Bool)
  | nan
  deriving DecidableEq

namespace Double

/-- The nearest value, with the least exponent and the overflow of the format. -/
def round (q : ℚ) : Double :=
  let unit := max (ulp q) (2 ^ (-1074 : ℤ))
  let nearest := roundEven (q / unit) * unit
  if (2 : ℚ) ^ (1024 : ℤ) ≤ |nearest| then .infinite (decide (q < 0)) else .finite nearest

def neg : Double → Double
  | finite value => finite (-value)
  | infinite negative => infinite !negative
  | nan => nan

end Double

namespace Text

/-- The number that digits spell. -/
def decimalNumber (t : Text) : Nat := t.foldl (fun n c => 10 * n + (c.toNat - '0'.toNat)) 0

/-- Digits with at most one point among or around them. -/
def parseDecimal (t : Text) : Option ℚ :=
  let fraction := (t.dropWhile (· ≠ '.')).drop 1
  let written := t.takeWhile (· ≠ '.') ++ fraction
  if written ≠ [] ∧ written.all Char.isDigit then some (decimalNumber written / 10 ^ fraction.length) else none

def isExponentMark (c : Char) : Bool := c = 'e' || c = 'E'

/-- A decimal number, and a power of ten after it. -/
def parseScientific (t : Text) : Option ℚ :=
  match t.dropWhile fun c => !isExponentMark c with
  | [] => parseDecimal t
  | _ :: exponent => do
    let mantissa ← parseDecimal (t.takeWhile fun c => !isExponentMark c)
    let power ← parseInt exponent
    pure (mantissa * 10 ^ power)

/-- A number without a sign, or one of the words for the other values in any case. -/
def parseUnsignedF64 (t : Text) : Option Double :=
  let word := t.map Char.toLower
  if word = "nan".toList then some .nan
  else if word = "inf".toList ∨ word = "infinity".toList then some (.infinite false)
  else (parseScientific t).map Double.round

def parseF64 : Text → Option Double
  | '-' :: t => (parseUnsignedF64 t).map Double.neg
  | '+' :: t => parseUnsignedF64 t
  | t => parseUnsignedF64 t

example : parseScientific "-.5".toList = none ∧ parseScientific "12.5E-1".toList = some (5 / 4) ∧
    parseScientific ".".toList = none ∧ parseF64 "-Inf".toList = some (.infinite true) := by
  decide +kernel

end Text

/-- A decimal number as it is printed, without a sign or an exponent. -/
structure Decimal where
  whole : List (Fin 10)
  fraction : List (Fin 10)
  whole_ne_nil : whole ≠ []

namespace Decimal

def digit (d : Fin 10) : Char := Nat.digitChar d

def text (d : Decimal) : Text :=
  d.whole.map digit ++ if d.fraction = [] then [] else '.' :: d.fraction.map digit

def value (d : Decimal) : ℚ :=
  ((d.whole ++ d.fraction).foldl (fun n c => 10 * n + c.val) 0 : ℕ) / 10 ^ d.fraction.length

theorem digit_spec (d : Fin 10) : (digit d).isDigit = true ∧ (digit d).toNat - '0'.toNat = d ∧
    digit d ≠ '.' ∧ Text.isExponentMark (digit d) = false := by
  revert d
  decide

/-- A digit starts neither a sign nor one of the words. -/
theorem digit_ne (d : Fin 10) :
    digit d ≠ '-' ∧ digit d ≠ '+' ∧ (digit d).toLower ≠ 'n' ∧ (digit d).toLower ≠ 'i' := by
  revert d
  decide

theorem decimalNumber_map_digit (ds : List (Fin 10)) :
    Text.decimalNumber (ds.map digit) = ds.foldl (fun n c => 10 * n + c.val) 0 := by
  rw [Text.decimalNumber, List.foldl_map]
  congr 1
  funext n c
  rw [(digit_spec c).2.1]

variable (d : Decimal)

theorem parseDecimal_text : Text.parseDecimal d.text = some d.value := by
  have hpoint : ∀ c ∈ d.whole.map digit, decide (c ≠ '.') = true := by
    simpa using fun c _ => (digit_spec c).2.2.1
  have htake : d.text.takeWhile (fun c => decide (c ≠ '.')) = d.whole.map digit := by
    rw [text, List.takeWhile_append_of_pos hpoint]
    split <;> simp
  have hdrop : (d.text.dropWhile fun c => decide (c ≠ '.')).drop 1 = d.fraction.map digit := by
    rw [text, List.dropWhile_append_of_pos hpoint]
    split <;> simp_all
  have hwritten : (d.whole ++ d.fraction).map digit ≠ [] ∧
      ((d.whole ++ d.fraction).map digit).all Char.isDigit = true := by
    constructor
    · simp [d.whole_ne_nil]
    · simp [digit_spec]
  rw [Text.parseDecimal, htake, hdrop, ← List.map_append, if_pos hwritten, decimalNumber_map_digit,
    List.length_map]
  rfl

theorem mem_text {c : Char} (h : c ∈ d.text) : c = '.' ∨ ∃ n, c = digit n := by
  rcases List.mem_append.mp h with h | h
  · obtain ⟨n, -, rfl⟩ := List.mem_map.mp h
    exact .inr ⟨n, rfl⟩
  · split at h
    · cases h
    · rcases List.mem_cons.mp h with rfl | h
      · exact .inl rfl
      · obtain ⟨n, -, rfl⟩ := List.mem_map.mp h
        exact .inr ⟨n, rfl⟩

theorem text_ne_nil : d.text ≠ [] :=
  List.append_ne_nil_of_left_ne_nil (by simpa using d.whole_ne_nil) _

/-- A decimal number is read as the double nearest to it. -/
theorem parseF64_text : Text.parseF64 d.text = some (Double.round d.value) := by
  obtain ⟨first, digits, hwhole⟩ := List.exists_cons_of_ne_nil d.whole_ne_nil
  obtain ⟨rest, htext⟩ : ∃ rest, d.text = digit first :: rest := by
    rw [text, hwhole]
    exact ⟨_, rfl⟩
  obtain ⟨hminus, hplus, hn, hi⟩ := digit_ne first
  have hnumber : Text.parseScientific d.text = some d.value := by
    rw [Text.parseScientific, List.dropWhile_eq_nil_iff.mpr]
    · exact d.parseDecimal_text
    · intro c hc
      rcases d.mem_text hc with rfl | ⟨n, rfl⟩
      · rfl
      · simp [digit_spec]
  have hunsigned : Text.parseUnsignedF64 d.text = some (Double.round d.value) := by
    rw [Text.parseUnsignedF64, hnumber, htext]
    simp [hn, hi]
  rw [htext] at hunsigned ⊢
  simp [Text.parseF64, hminus, hplus, hunsigned]

end Decimal

end ProcessExplorer.Library
