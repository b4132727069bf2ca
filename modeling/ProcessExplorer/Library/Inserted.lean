import Mathlib.Data.List.Basic

/-! Items put in anywhere among those of a list, and loops that pass over them. -/
namespace ProcessExplorer.Library
variable {α σ : Type} {p : α → Prop}

/-- The second list is the first with items of p put in anywhere, any number of them. -/
inductive Inserted (p : α → Prop) : List α → List α → Prop where
  | nil : Inserted p [] []
  | kept {xs ys : List α} (x : α) (h : Inserted p xs ys) : Inserted p (x :: xs) (x :: ys)
  | added {xs ys : List α} {x : α} (hx : p x) (h : Inserted p xs ys) : Inserted p xs (x :: ys)

theorem Inserted.refl (xs : List α) : Inserted p xs xs := by
  induction xs with
  | nil => exact .nil
  | cons x xs ih => exact .kept x ih

/-- A loop whose states all allow it to pass over an item ends the same with more of these. -/
theorem Inserted.foldl_eq {f : σ → α → σ} {I : σ → Prop} (hstep : ∀ s x, I s → I (f s x))
    (hskip : ∀ s x, I s → p x → f s x = s) {xs ys : List α} (h : Inserted p xs ys) {s : σ} (hs : I s) :
    ys.foldl f s = xs.foldl f s := by
  induction h generalizing s with
  | nil => rfl
  | kept x _ ih => exact ih (hstep s x hs)
  | @added xs ys x hx _ ih =>
    rw [List.foldl_cons, hskip s x hs hx]
    exact ih hs

end ProcessExplorer.Library
