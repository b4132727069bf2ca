import Mathlib.Algebra.BigOperators.Group.List.Basic
import Mathlib.Algebra.BigOperators.Group.Finset.Basic
import Mathlib.Algebra.Ring.Nat
import Mathlib.Order.Interval.Finset.Nat
import ProcessExplorer.Library.HashTable

/-! Amounts added up by key, in the order in which the keys first appear; and what lengths of disjoint
intervals can add up to. -/
namespace ProcessExplorer.Library

section Tally
variable {κ ν : Type} [DecidableEq κ] [AddMonoid ν]

/-- One amount more: a new key goes to the end of the order. -/
def tally (t : List κ × HashMap κ ν) (item : κ × ν) : List κ × HashMap κ ν :=
  (if (t.2.lookup item.1).isSome then t.1 else t.1 ++ [item.1],
    t.2.insert item.1 ((t.2.lookup item.1).getD 0 + item.2))

def total (items : List (κ × ν)) (k : κ) : ν := ((items.filter (·.1 = k)).map Prod.snd).sum

def keys (items : List (κ × ν)) : List κ := (items.map Prod.fst).eraseDups

def totals (items : List (κ × ν)) : List (κ × ν) := (keys items).map fun k => (k, total items k)

omit [AddMonoid ν] in
theorem mem_keys {items : List (κ × ν)} {k : κ} : k ∈ keys items ↔ k ∈ items.map Prod.fst := List.mem_eraseDups

theorem total_concat (items : List (κ × ν)) (item : κ × ν) (k : κ) :
    total (items ++ [item]) k = if item.1 = k then total items k + item.2 else total items k := by
  by_cases hk : item.1 = k <;> simp [total, List.filter_append, hk]

theorem total_eq_zero {items : List (κ × ν)} {k : κ} (h : k ∉ items.map Prod.fst) : total items k = 0 := by
  have hnone : items.filter (·.1 = k) = [] := by
    simp only [List.filter_eq_nil_iff, decide_eq_true_iff]
    rintro item hitem rfl
    exact h (List.mem_map_of_mem hitem)
  rw [total, hnone]
  rfl

/-- Amounts may be added up before they are converted, or after. -/
theorem total_map {μ : Type} [AddMonoid μ] (f : ν →+ μ) (items : List (κ × ν)) (k : κ) :
    total (items.map fun item => (item.1, f item.2)) k = f (total items k) := by
  rw [total, total, map_list_sum, List.filter_map, List.map_map, List.map_map]
  rfl

/-- The order has every key once, by first appearance, and the table what it adds up to. -/
theorem foldl_tally (items : List (κ × ν)) :
    (items.foldl tally ([], ∅)).1 = keys items ∧
      ∀ k, (items.foldl tally ([], ∅)).2.lookup k =
        if k ∈ items.map Prod.fst then some (total items k) else none := by
  induction items using List.reverseRecOn with
  | nil => simp [keys]
  | append_singleton items item ih =>
    obtain ⟨horder, hlookup⟩ := ih
    rw [List.foldl_append, List.foldl_cons, List.foldl_nil, tally, hlookup, horder, keys, keys, List.map_append]
    constructor
    · by_cases hm : item.1 ∈ items.map Prod.fst <;>
        simp [hm, List.eraseDups_append, List.eraseDups_cons, List.removeAll]
    · intro k
      rw [HashMap.lookup_insert, hlookup, total_concat]
      by_cases hk : item.1 = k
      · subst hk
        by_cases hm : item.1 ∈ items.map Prod.fst
        · simp [hm]
        · simp [hm, total_eq_zero hm]
      · have hmem : k ∈ items.map Prod.fst ++ [item].map Prod.fst ↔ k ∈ items.map Prod.fst := by
          simp [Ne.symm hk]
        rw [if_neg (Ne.symm hk), if_neg hk]
        exact (if_congr hmem rfl rfl).symm

end Tally

section Intervals

theorem exists_union {intervals : List (ℕ × ℕ)} (hdisjoint : intervals.Pairwise fun i j => i.2 ≤ j.1 ∨ j.2 ≤ i.1) :
    ∃ union : Finset ℕ, union.card = (intervals.map fun i => i.2 - i.1).sum ∧
      ∀ x ∈ union, ∃ i ∈ intervals, i.1 ≤ x ∧ x < i.2 := by
  induction intervals with
  | nil => exact ⟨∅, rfl, by simp⟩
  | cons i intervals ih =>
    obtain ⟨hi, hrest⟩ := List.pairwise_cons.mp hdisjoint
    obtain ⟨union, hcard, hmem⟩ := ih hrest
    refine ⟨Finset.Ico i.1 i.2 ∪ union, ?_, ?_⟩
    · rw [Finset.card_union_of_disjoint, Nat.card_Ico, hcard, List.map_cons, List.sum_cons]
      refine Finset.disjoint_left.mpr fun x hx hx' => ?_
      obtain ⟨j, hj, hlow, hhigh⟩ := hmem x hx'
      have := Finset.mem_Ico.mp hx
      rcases hi j hj with h | h <;> omega
    · intro x hx
      rcases Finset.mem_union.mp hx with hx | hx
      · exact ⟨i, List.mem_cons_self, Finset.mem_Ico.mp hx⟩
      · obtain ⟨j, hj, hx⟩ := hmem x hx
        exact ⟨j, List.mem_cons_of_mem _ hj, hx⟩

/-- Disjoint intervals below a bound are no longer together than the bound. -/
theorem sum_length_le {intervals : List (ℕ × ℕ)} {bound : ℕ} (hbound : ∀ i ∈ intervals, i.2 ≤ bound)
    (hdisjoint : intervals.Pairwise fun i j => i.2 ≤ j.1 ∨ j.2 ≤ i.1) :
    (intervals.map fun i => i.2 - i.1).sum ≤ bound := by
  obtain ⟨union, hcard, hmem⟩ := exists_union hdisjoint
  have hsubset : union ⊆ Finset.range bound := by
    intro x hx
    obtain ⟨i, hi, -, hhigh⟩ := hmem x hx
    exact Finset.mem_range.mpr (hhigh.trans_le (hbound i hi))
  calc (intervals.map fun i => i.2 - i.1).sum = union.card := hcard.symm
    _ ≤ (Finset.range bound).card := Finset.card_le_card hsubset
    _ = bound := Finset.card_range bound

end Intervals
end ProcessExplorer.Library
