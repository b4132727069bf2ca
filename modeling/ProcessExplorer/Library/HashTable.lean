import Mathlib.Data.List.AList
import Mathlib.Data.List.Dedup

/-! Hash tables with one value a key and no promised iteration order.
A pass over a table is a parameter that may return any permutation. -/
namespace ProcessExplorer.Library

abbrev HashMap (K V : Type) := AList (fun _ : K => V)

/-- The order in which one pass visits the entries of a hash table. -/
structure Visit (α : Type) where
  run : List α → List α
  perm : ∀ l, (run l).Perm l

namespace Visit
variable {α : Type}

/-- The pass that visits the entries as they are stored. -/
def stored : Visit α := ⟨id, fun l => .refl l⟩

def reversed : Visit α := ⟨List.reverse, List.reverse_perm⟩

@[simp] theorem mem_run (v : Visit α) (l : List α) (x : α) : x ∈ v.run l ↔ x ∈ l :=
  (v.perm l).mem_iff

@[simp] theorem length_run (v : Visit α) (l : List α) : (v.run l).length = l.length :=
  (v.perm l).length_eq

@[simp] theorem run_nil (v : Visit α) : v.run [] = [] := (v.perm []).eq_nil

/-- When at most one entry satisfies the test, the order of the pass does not matter. -/
theorem find?_run (v : Visit α) (l : List α) (p : α → Bool) (x : α) (hx : x ∈ l) (hp : p x)
    (hu : ∀ y ∈ l, p y → y = x) : (v.run l).find? p = some x := by
  cases hf : (v.run l).find? p with
  | none =>
    have := List.find?_eq_none.mp hf x ((v.mem_run l x).mpr hx)
    contradiction
  | some y =>
    have hy := (v.mem_run l y).mp (List.mem_of_find?_eq_some hf)
    rw [hu y hy (List.find?_some hf)]

theorem find?_run_none (v : Visit α) (l : List α) (p : α → Bool) (hn : ∀ y ∈ l, ¬ p y) :
    (v.run l).find? p = none :=
  List.find?_eq_none.mpr fun y hy => hn y ((v.mem_run l y).mp hy)

end Visit

namespace HashMap
variable {K V : Type} [DecidableEq K]

theorem lookup_insert (m : HashMap K V) (k k' : K) (v : V) :
    (AList.insert k v m).lookup k' = if k' = k then some v else m.lookup k' := by
  split
  · subst k'
    exact AList.lookup_insert m
  · exact AList.lookup_insert_ne ‹_›

theorem lookup_erase (m : HashMap K V) (k k' : K) :
    (AList.erase k m).lookup k' = if k' = k then none else m.lookup k' := by
  split
  · subst k'
    exact AList.lookup_erase k m
  · exact AList.lookup_erase_ne ‹_›

@[simp] theorem lookup_empty (k : K) : (∅ : HashMap K V).lookup k = none :=
  AList.lookup_empty k

theorem mem_iff (m : HashMap K V) (k : K) : k ∈ m ↔ ∃ v, m.lookup k = some v := by
  rw [← AList.lookup_isSome, Option.isSome_iff_exists]

theorem lookup_eq_some_iff (m : HashMap K V) (k : K) (v : V) :
    m.lookup k = some v ↔ ⟨k, v⟩ ∈ m.entries := AList.mem_lookup_iff

/-- Removal of every listed key, present or not. -/
def eraseAll (m : HashMap K V) (ks : List K) : HashMap K V :=
  ks.foldl (fun m k => AList.erase k m) m

theorem lookup_eraseAll (m : HashMap K V) (ks : List K) (k : K) :
    (eraseAll m ks).lookup k = if k ∈ ks then none else m.lookup k := by
  induction ks generalizing m with
  | nil => simp [eraseAll]
  | cons j ks ih =>
    change (eraseAll (AList.erase j m) ks).lookup k = _
    rw [ih, lookup_erase]
    by_cases hk : k ∈ ks <;> by_cases hj : k = j <;> simp [hk, hj]

end HashMap
end ProcessExplorer.Library
