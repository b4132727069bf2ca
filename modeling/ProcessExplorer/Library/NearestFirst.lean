import ProcessExplorer.Library.Forest
import ProcessExplorer.Library.Fuel
import Mathlib.Order.Lattice.Nat

/-! What a breadth-first traversal lists: the start and everything below it,
no node before a nearer one. -/
namespace ProcessExplorer.Library.ParentGraph
open Relation
variable {α : Type} {g : ParentGraph α} {root : α}

/-- The steps from the root down to a node; for a node that is not below it the number means nothing. -/
noncomputable def distance (g : ParentGraph α) (root x : α) : ℕ := sInf {n | Below g.Child root n x}

theorem below_distance {x : α} (h : ReflTransGen g.Child root x) :
    Below g.Child root (g.distance root x) x :=
  Nat.sInf_mem (Below.exists_of_reach h)

theorem distance_eq {x : α} {n : ℕ} (hr : ¬ g.Cyclic root) (h : Below g.Child root n x) :
    g.distance root x = n :=
  (below_distance h.reach).steps_unique g.leftUnique hr h

theorem distance_child {x y : α} (hr : ¬ g.Cyclic root) (hx : ReflTransGen g.Child root x)
    (hc : g.Child x y) : g.distance root y = g.distance root x + 1 :=
  distance_eq hr ((below_distance hx).tail hc)

/-- Throughout a traversal the served and waiting nodes stand in the order of
their distance, and those that wait span at most two distances. -/
structure Levels (g : ParentGraph α) (root : α) (visited queue : List α) : Prop where
  traversal : Traversal g root visited queue
  start : root ∈ visited ++ queue
  closed : ∀ x ∈ visited, ∀ y ∈ g.kids x, y ∈ visited ++ queue
  sorted : (visited ++ queue).Pairwise fun x y => g.distance root x ≤ g.distance root y
  span : ∀ x ∈ queue.head?, ∀ y ∈ visited ++ queue, g.distance root y ≤ g.distance root x + 1

theorem Levels.init (root : α) : Levels g root [] [root] where
  traversal := .start root
  start := List.mem_singleton_self root
  closed x hx := absurd hx List.not_mem_nil
  sorted := List.pairwise_singleton _ _
  span x hx y hy := by
    obtain rfl := Option.some.inj hx
    obtain rfl := List.mem_singleton.mp hy
    exact Nat.le_succ _

theorem Levels.step (hr : ¬ g.Cyclic root) {x : α} {queue visited : List α}
    (h : Levels g root visited (x :: queue)) : Levels g root (visited ++ [x]) (queue ++ g.kids x) := by
  have hsplit : visited ++ [x] ++ (queue ++ g.kids x) = visited ++ x :: queue ++ g.kids x := by simp
  have hx : ReflTransGen g.Child root x := h.traversal.reached x (by simp)
  have hkid : ∀ y ∈ g.kids x, g.distance root y = g.distance root x + 1 := fun y hy => distance_child hr hx hy
  have hold : ∀ y ∈ visited ++ x :: queue, g.distance root y ≤ g.distance root x + 1 := h.span x rfl
  constructor
  · exact h.traversal.step hr
  · rw [hsplit]
    exact List.mem_append_left _ h.start
  · rw [hsplit]
    intro y hy z hz
    rcases List.mem_append.mp hy with hy | hy
    · exact List.mem_append_left _ (h.closed y hy z hz)
    · obtain rfl := List.mem_singleton.mp hy
      exact List.mem_append_right _ hz
  · rw [hsplit]
    refine List.pairwise_append.mpr ⟨h.sorted, ?_, fun y hy z hz => ?_⟩
    · exact List.pairwise_of_forall_mem_list fun y hy z hz => by rw [hkid y hy, hkid z hz]
    · rw [hkid z hz]
      exact hold y hy
  · rw [hsplit]
    intro head hhead y hy
    have hle : g.distance root x ≤ g.distance root head := by
      rcases List.mem_append.mp (List.mem_of_mem_head? hhead) with hq | hk
      · have hs := (List.pairwise_append.mp h.sorted).2.1
        exact List.rel_of_pairwise_cons hs hq
      · rw [hkid head hk]
        exact Nat.le_succ _
    have hy : g.distance root y ≤ g.distance root x + 1 := by
      rcases List.mem_append.mp hy with hy | hy
      · exact hold y hy
      · exact (hkid y hy).le
    omega

/-- More fuel does not change a result. -/
theorem breadthFirst_settles {kids : α → List α} {fuel : ℕ} {queue visited result : List α}
    (he : breadthFirst kids fuel queue visited = some result) :
    Settles (fun fuel => breadthFirst kids fuel queue visited) result := by
  refine ⟨fuel, fun fuel' hf => ?_⟩
  induction fuel generalizing fuel' queue visited with
  | zero =>
    cases queue with
    | nil => simpa only [breadthFirst] using he
    | cons _ _ => cases he
  | succ fuel ih =>
    cases queue with
    | nil => simpa only [breadthFirst] using he
    | cons x queue =>
      obtain ⟨fuel', rfl⟩ := Nat.exists_eq_add_of_le' (Nat.one_le_of_lt hf)
      exact ih he fuel' (Nat.le_of_succ_le_succ hf)

/-- A finished traversal lists the start and what is below it, nearest first. -/
theorem breadthFirst_lists {fuel : ℕ} {result : List α} (hr : ¬ g.Cyclic root)
    (he : breadthFirst g.kids fuel [root] [] = some result) :
    (∀ x, x ∈ result ↔ ReflTransGen g.Child root x) ∧
      result.Pairwise fun x y => g.distance root x ≤ g.distance root y := by
  have h : Levels g root result [] := breadthFirst_invariant (fun _ _ _ h => h.step hr) (.init root) he
  have hstart := h.start
  have hclosed := h.closed
  have hsorted := h.sorted
  have hreached := h.traversal.reached
  rw [List.append_nil] at hstart hsorted hreached
  refine ⟨fun x => ⟨hreached x, fun hx => ?_⟩, hsorted⟩
  induction hx with
  | refl => exact hstart
  | tail _ hc ih => simpa using hclosed _ ih _ hc

end ProcessExplorer.Library.ParentGraph
