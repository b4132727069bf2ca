import Mathlib.Data.Char
import Mathlib.Data.List.Destutter
import ProcessExplorer.Library.Text

/-! A list that is sorted and then freed of repetitions: the same members, each once, in order. -/
namespace ProcessExplorer.Library

section Repetitions
variable {α : Type} [DecidableEq α] {le : α → α → Bool}

theorem mem_destutter'_ne {x a : α} {l : List α} : x ∈ l.destutter' (· ≠ ·) a ↔ x = a ∨ x ∈ l := by
  induction l generalizing a with
  | nil => simp
  | cons b l ih =>
    rw [List.destutter'_cons]
    split
    · simp [ih]
    · rename_i h
      obtain rfl := not_not.mp h
      simp [ih]

theorem mem_destutter_ne {x : α} {l : List α} : x ∈ l.destutter (· ≠ ·) ↔ x ∈ l := by
  cases l with
  | nil => simp
  | cons a l => rw [List.destutter_cons', mem_destutter'_ne, List.mem_cons]

/-- Among sorted items, equal ones are neighbours. -/
theorem pairwise_destutter_ne (htrans : ∀ a b c, le a b → le b c → le a c)
    (hantisymm : ∀ a b, le a b → le b a → a = b) {l : List α} (h : l.Pairwise fun a b => le a b) :
    (l.destutter (· ≠ ·)).Pairwise fun a b => le a b ∧ a ≠ b := by
  have hsorted := h.sublist (List.destutter_sublist (· ≠ ·) l)
  have hchain := List.isChain_destutter (· ≠ ·) l
  have hstrict : (l.destutter (· ≠ ·)).IsChain fun a b => le a b ∧ a ≠ b :=
    List.isChain_iff_getElem.mpr fun i hi =>
      ⟨List.isChain_iff_getElem.mp hsorted.isChain i hi, List.isChain_iff_getElem.mp hchain i hi⟩
  have : Trans (fun a b => le a b = true ∧ a ≠ b) (fun a b => le a b = true ∧ a ≠ b)
      (fun a b => le a b = true ∧ a ≠ b) := by
    constructor
    rintro a b c ⟨hab, hne⟩ ⟨hbc, -⟩
    refine ⟨htrans a b c hab hbc, ?_⟩
    rintro rfl
    exact hne (hantisymm a b hab hbc)
  exact hstrict.pairwise

end Repetitions

namespace Text

/-- The order of the code points is the one of the encoded bytes. -/
theorem le_iff (a b : Text) : le a b = true ↔ a ≤ b := by
  have hlt : (fun c d : Char => decide (c.toNat < d.toNat)) = fun c d => decide (c < d) := by
    funext c d
    exact decide_eq_decide.mpr Iff.rfl
  rw [le, hlt, Bool.not_eq_true', List.lex_eq_false_iff_not_lex, ← not_lt]
  simp only [decide_eq_true_eq]
  exact Iff.rfl

theorem le_trans' (a b c : Text) (hab : le a b) (hbc : le b c) : le a c := by
  rw [le_iff] at *
  exact hab.trans hbc

theorem le_antisymm' (a b : Text) (hab : le a b) (hba : le b a) : a = b := by
  rw [le_iff] at *
  exact hab.antisymm hba

theorem le_total' (a b : Text) : le a b || le b a := by
  rw [Bool.or_eq_true, le_iff, le_iff]
  exact le_total a b

end Text
end ProcessExplorer.Library
