import Mathlib.Data.List.Basic
import Mathlib.Data.List.Count
import Mathlib.Data.List.Nodup
import Mathlib.Logic.Function.Iterate

/-! A loop over items in which the visit of an item reads and writes only the
part of the state that belongs to it. Each part then sees its own visits only. -/
namespace ProcessExplorer.Library
variable {ι σ : Type} [DecidableEq ι] {ν : ι → Type}

/-- A loop body, the part of the state each item owns, and the effect on that part. -/
structure LocalBody (ι σ : Type) (ν : ι → Type) where
  body : σ → ι → σ
  part : (i : ι) → σ → ν i
  effect : (i : ι) → ν i → ν i
  part_self : ∀ s i, part i (body s i) = effect i (part i s)
  part_other : ∀ s i j, j ≠ i → part j (body s i) = part j s

namespace LocalBody
variable (b : LocalBody ι σ ν)

/-- After the loop an item's part has seen one effect for each visit of the item. -/
theorem part_foldl (i : ι) (items : List ι) (s : σ) :
    b.part i (items.foldl b.body s) = (b.effect i)^[items.count i] (b.part i s) := by
  induction items generalizing s with
  | nil => rfl
  | cons j items ih =>
    rw [List.foldl_cons, ih]
    by_cases h : j = i
    · subst h
      rw [b.part_self, List.count_cons_self, Function.iterate_succ_apply]
    · rw [b.part_other s j i (Ne.symm h), List.count_cons_of_ne h]

/-- The order of the visits is not observable in any part. -/
theorem part_foldl_perm (i : ι) {items items' : List ι} (h : items.Perm items') (s : σ) :
    b.part i (items.foldl b.body s) = b.part i (items'.foldl b.body s) := by
  rw [b.part_foldl, b.part_foldl, h.count_eq]

theorem part_foldl_of_notMem {i : ι} {items : List ι} (h : i ∉ items) (s : σ) :
    b.part i (items.foldl b.body s) = b.part i s := by
  rw [b.part_foldl, List.count_eq_zero_of_not_mem h, Function.iterate_zero_apply]

theorem part_foldl_of_mem {i : ι} {items : List ι} (hd : items.Nodup) (h : i ∈ items) (s : σ) :
    b.part i (items.foldl b.body s) = b.effect i (b.part i s) := by
  rw [b.part_foldl, List.count_eq_one_of_mem hd h, Function.iterate_one]

end LocalBody
end ProcessExplorer.Library
