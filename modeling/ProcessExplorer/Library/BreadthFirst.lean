import Mathlib.Data.Finset.Card
import Mathlib.Data.Finset.Dedup
import Mathlib.Logic.Relation

/-! Breadth-first traversal without a set of visited nodes, over a graph in
which every node has at most one parent. It ends exactly when its start is not
its own descendant, and what it returns then has no repetition. -/
namespace ProcessExplorer.Library
variable {α : Type}

/-- The queue is served from the front; the children of the served node join at the back. -/
def breadthFirst (kids : α → List α) : Nat → List α → List α → Option (List α)
  | _, [], visited => some visited
  | 0, _ :: _, _ => none
  | fuel + 1, x :: queue, visited => breadthFirst kids fuel (queue ++ kids x) (visited ++ [x])

/-- What serving one node preserves holds of a result, in which the queue has run dry. -/
theorem breadthFirst_invariant {kids : α → List α} {P : List α → List α → Prop}
    (step : ∀ x queue visited, P visited (x :: queue) → P (visited ++ [x]) (queue ++ kids x))
    {fuel : Nat} {queue visited result : List α} (h : P visited queue)
    (he : breadthFirst kids fuel queue visited = some result) : P result [] := by
  induction fuel generalizing queue visited with
  | zero =>
    cases queue with
    | nil =>
      obtain rfl := Option.some.inj he
      exact h
    | cons _ _ => cases he
  | succ fuel ih =>
    cases queue with
    | nil =>
      obtain rfl := Option.some.inj he
      exact h
    | cons x queue => exact ih (step x queue visited h) he

/-- Child lists of a graph with at most one parent a node, all within a finite set. -/
structure ParentGraph (α : Type) where
  kids : α → List α
  nodes : Finset α
  kids_nodup : ∀ x, (kids x).Nodup
  kids_mem : ∀ x y, y ∈ kids x → y ∈ nodes
  parent_unique : ∀ x x' y, y ∈ kids x → y ∈ kids x' → x = x'

namespace ParentGraph
variable (g : ParentGraph α)

def Child (x y : α) : Prop := y ∈ g.kids x

/-- Some descendant of x, one or more steps below it, is x again. -/
def Cyclic (x : α) : Prop := Relation.TransGen g.Child x x

variable {g}

theorem Cyclic.exists_child {x : α} (h : g.Cyclic x) : ∃ y ∈ g.kids x, g.Cyclic y := by
  obtain ⟨y, hxy, hyx⟩ := Relation.TransGen.head'_iff.mp h
  exact ⟨y, hxy, Relation.TransGen.tail' hyx hxy⟩

theorem breadthFirst_of_cyclic (fuel : Nat) (queue visited : List α) (x : α) (hx : x ∈ queue)
    (hc : g.Cyclic x) : breadthFirst g.kids fuel queue visited = none := by
  induction fuel generalizing queue visited x with
  | zero =>
    cases queue with
    | nil => cases hx
    | cons _ _ => rfl
  | succ fuel ih =>
    cases queue with
    | nil => cases hx
    | cons y queue =>
      rw [breadthFirst]
      rcases List.mem_cons.mp hx with rfl | hx
      · obtain ⟨z, hz, hzc⟩ := hc.exists_child
        exact ih _ _ z (List.mem_append_right _ hz) hzc
      · exact ih _ _ x (List.mem_append_left _ hx) hc

/-- What holds of the visited nodes and the queue throughout a traversal from root. -/
structure Traversal (g : ParentGraph α) (root : α) (visited queue : List α) : Prop where
  nodup : (visited ++ queue).Nodup
  reached : ∀ x ∈ visited ++ queue, Relation.ReflTransGen g.Child root x
  parent : ∀ x ∈ visited ++ queue, x ≠ root → ∃ y ∈ visited, x ∈ g.kids y

theorem Traversal.start (root : α) : Traversal g root [] [root] where
  nodup := by simp
  reached x hx := by
    obtain rfl := List.mem_singleton.mp hx
    exact .refl
  parent x hx hne := absurd (List.mem_singleton.mp hx) hne

theorem Traversal.step {root x : α} {visited queue : List α}
    (h : Traversal g root visited (x :: queue)) (hr : ¬ g.Cyclic root) :
    Traversal g root (visited ++ [x]) (queue ++ g.kids x) := by
  have hsplit : visited ++ [x] ++ (queue ++ g.kids x) = visited ++ x :: queue ++ g.kids x := by simp
  have hx : Relation.ReflTransGen g.Child root x := h.reached x (by simp)
  have hxv : x ∉ visited := fun hm =>
    (List.nodup_append.mp h.nodup).2.2 x hm x List.mem_cons_self rfl
  constructor
  · rw [hsplit]
    refine List.nodup_append.mpr ⟨h.nodup, g.kids_nodup x, ?_⟩
    rintro c hc _ hk rfl
    by_cases hroot : c = root
    · subst c
      exact hr (Relation.TransGen.tail' hx hk)
    · obtain ⟨y, hy, hcy⟩ := h.parent c hc hroot
      obtain rfl := g.parent_unique _ _ _ hk hcy
      exact hxv hy
  · rw [hsplit]
    intro c hc
    rcases List.mem_append.mp hc with hc | hk
    · exact h.reached c hc
    · exact hx.tail hk
  · rw [hsplit]
    intro c hc hroot
    rcases List.mem_append.mp hc with hc | hk
    · obtain ⟨y, hy, hcy⟩ := h.parent c hc hroot
      exact ⟨y, List.mem_append_left _ hy, hcy⟩
    · exact ⟨x, by simp, hk⟩

theorem Traversal.of_result {root : α} (hr : ¬ g.Cyclic root) {fuel : Nat}
    {queue visited result : List α} (h : Traversal g root visited queue)
    (he : breadthFirst g.kids fuel queue visited = some result) : Traversal g root result [] :=
  breadthFirst_invariant (fun _ _ _ h => h.step hr) h he

variable [DecidableEq α]

theorem Traversal.length_le {root : α} {visited queue : List α} (h : Traversal g root visited queue) :
    (visited ++ queue).length ≤ g.nodes.card + 1 := by
  have hsub : (visited ++ queue).toFinset ⊆ insert root g.nodes := by
    intro x hx
    by_cases hroot : x = root
    · simp [hroot]
    · obtain ⟨y, _, hy⟩ := h.parent x (List.mem_toFinset.mp hx) hroot
      exact Finset.mem_insert_of_mem (g.kids_mem y x hy)
  calc (visited ++ queue).length = (visited ++ queue).toFinset.card :=
        (List.toFinset_card_of_nodup h.nodup).symm
    _ ≤ (insert root g.nodes).card := Finset.card_le_card hsub
    _ ≤ g.nodes.card + 1 := Finset.card_insert_le _ _

/-- Every served node uses up one of the finitely many nodes. -/
theorem Traversal.terminates {root : α} (hr : ¬ g.Cyclic root) (fuel : Nat) {queue visited : List α}
    (h : Traversal g root visited queue) (hf : g.nodes.card + 1 ≤ fuel + visited.length) :
    ∃ result, breadthFirst g.kids fuel queue visited = some result := by
  induction fuel generalizing queue visited with
  | zero =>
    cases queue with
    | nil => exact ⟨visited, rfl⟩
    | cons x queue =>
      have := h.length_le
      simp only [List.length_append, List.length_cons] at this
      omega
  | succ fuel ih =>
    cases queue with
    | nil => exact ⟨visited, rfl⟩
    | cons x queue =>
      apply ih (h.step hr)
      simp only [List.length_append, List.length_singleton]
      omega

/-- Termination is exactly the absence of a cycle through the root. -/
theorem breadthFirst_terminates_iff (g : ParentGraph α) (root : α) :
    (∃ fuel result, breadthFirst g.kids fuel [root] [] = some result) ↔ ¬ g.Cyclic root := by
  constructor
  · rintro ⟨fuel, result, he⟩ hc
    rw [breadthFirst_of_cyclic fuel [root] [] root List.mem_cons_self hc] at he
    cases he
  · intro hr
    exact ⟨g.nodes.card + 1, (Traversal.start root).terminates hr _ (Nat.le_add_right _ _)⟩

omit [DecidableEq α] in
theorem breadthFirst_nodup (g : ParentGraph α) {root : α} {fuel : Nat} {result : List α}
    (he : breadthFirst g.kids fuel [root] [] = some result) : result.Nodup := by
  have hr : ¬ g.Cyclic root := fun hc => by
    rw [breadthFirst_of_cyclic fuel [root] [] root List.mem_cons_self hc] at he
    cases he
  simpa using ((Traversal.start root).of_result hr he).nodup

end ParentGraph
end ProcessExplorer.Library
