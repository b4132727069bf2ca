import ProcessExplorer.Library.BreadthFirst

/-! Ancestry under a relation by which a node has at most one parent: distances,
roots, siblings, and the order in which a depth-first listing meets the nodes. -/
namespace ProcessExplorer.Library
open Relation
variable {α : Type} {child : α → α → Prop}

/-- The second node is reached from x by this many steps down. -/
inductive Below (child : α → α → Prop) (x : α) : ℕ → α → Prop
  | refl : Below child x 0 x
  | tail {n : ℕ} {y z : α} : Below child x n y → child y z → Below child x (n + 1) z

def Root (child : α → α → Prop) (x : α) : Prop := ∀ y, ¬ child y x

/-- Roots are siblings of one another. -/
def Siblings (child : α → α → Prop) (x y : α) : Prop :=
  Root child x ∧ Root child y ∨ ∃ parent, child parent x ∧ child parent y

/-- Some root stands above the node or is it. -/
def Rooted (child : α → α → Prop) (x : α) : Prop := ∃ root, Root child root ∧ ReflTransGen child root x

/-- An ancestor comes before what is below it, and a whole family before that
of a later sibling. -/
def Earlier (child before : α → α → Prop) (x y : α) : Prop :=
  TransGen child x y ∨
    ∃ c d, Siblings child c d ∧ before c d ∧ ReflTransGen child c x ∧ ReflTransGen child d y

namespace Below

theorem reach {x y : α} {n : ℕ} (h : Below child x n y) : ReflTransGen child x y := by
  induction h with
  | refl => exact .refl
  | tail _ hc ih => exact ih.tail hc

theorem exists_of_reach {x y : α} (h : ReflTransGen child x y) : ∃ n, Below child x n y := by
  induction h with
  | refl => exact ⟨0, .refl⟩
  | tail _ hc ih =>
    obtain ⟨n, hn⟩ := ih
    exact ⟨n + 1, hn.tail hc⟩

theorem head {x y z : α} {n : ℕ} (hc : child x y) (h : Below child y n z) : Below child x (n + 1) z := by
  induction h with
  | refl => exact .tail .refl hc
  | tail _ hc' ih => exact ih.tail hc'

/-- The first step of a way down. -/
theorem cases_head {x z : α} {n : ℕ} (h : Below child x n z) :
    n = 0 ∧ z = x ∨ ∃ m y, n = m + 1 ∧ child x y ∧ Below child y m z := by
  induction h with
  | refl => exact .inl ⟨rfl, rfl⟩
  | tail _ hc ih =>
    rcases ih with ⟨rfl, rfl⟩ | ⟨m, y, rfl, hy, hm⟩
    · exact .inr ⟨0, _, rfl, hc, .refl⟩
    · exact .inr ⟨m + 1, y, rfl, hy, hm.tail hc⟩

end Below

section OneParent
variable (unique : Relator.LeftUnique child)
include unique

theorem reach_parent {x y p : α} (h : TransGen child x y) (hp : child p y) : ReflTransGen child x p := by
  obtain ⟨q, hxq, hq⟩ := TransGen.tail'_iff.mp h
  obtain rfl := unique hq hp
  exact hxq

/-- What stands above a cycle is on it. -/
theorem cyclic_of_reach {x y : α} (h : ReflTransGen child x y) (hy : TransGen child y y) :
    TransGen child x x := by
  induction h using ReflTransGen.head_induction_on with
  | refl => exact hy
  | head hc _ ih => exact TransGen.head' hc (reach_parent unique ih hc)

theorem reach_total {x y z : α} (hx : ReflTransGen child x z) (hy : ReflTransGen child y z) :
    ReflTransGen child x y ∨ ReflTransGen child y x := by
  induction hx with
  | refl => exact .inr hy
  | tail hxp hp ih =>
    rcases ReflTransGen.cases_tail hy with rfl | ⟨q, hq, hc⟩
    · exact .inl (hxp.tail hp)
    · obtain rfl := unique hc hp
      exact ih hq

omit unique in
theorem Root.eq_of_reach {x y : α} (hy : Root child y) (h : ReflTransGen child x y) : x = y := by
  rcases ReflTransGen.cases_tail h with rfl | ⟨p, _, hp⟩
  · rfl
  · exact absurd hp (hy p)

omit unique in
theorem Root.acyclic {x : α} (hx : Root child x) : ¬ TransGen child x x := by
  intro h
  obtain ⟨p, _, hp⟩ := TransGen.tail'_iff.mp h
  exact hx p hp

theorem Rooted.acyclic {x y : α} (hy : Rooted child y) (h : ReflTransGen child x y) :
    ¬ TransGen child x x := by
  obtain ⟨root, hroot, hr⟩ := hy
  intro hc
  rcases reach_total unique h hr with hx | hx
  · obtain rfl := hroot.eq_of_reach hx
    exact hroot.acyclic hc
  · exact hroot.acyclic (cyclic_of_reach unique hx hc)

/-- A root above a node is above all its ancestors. -/
theorem Root.reach_of_reach {root x y : α} (hroot : Root child root) (hr : ReflTransGen child root y)
    (h : ReflTransGen child x y) : ReflTransGen child root x := by
  rcases reach_total unique hr h with hx | hx
  · exact hx
  · obtain rfl := hroot.eq_of_reach hx
    exact .refl

theorem Below.steps_unique {x y : α} {m n : ℕ} (hx : ¬ TransGen child x x) (hm : Below child x m y)
    (hn : Below child x n y) : m = n := by
  induction hm generalizing n with
  | refl =>
    cases hn with
    | refl => rfl
    | tail h hc => exact absurd (TransGen.tail' h.reach hc) hx
  | tail h hc ih =>
    cases hn with
    | refl => exact absurd (TransGen.tail' h.reach hc) hx
    | tail h' hc' =>
      obtain rfl := unique hc hc'
      rw [ih h']

omit unique in
theorem Siblings.symm {c d : α} (h : Siblings child c d) : Siblings child d c := by
  rcases h with ⟨hc, hd⟩ | ⟨p, hpc, hpd⟩
  · exact .inl ⟨hd, hc⟩
  · exact .inr ⟨p, hpd, hpc⟩

/-- No sibling stands below another. -/
theorem Siblings.eq_of_reach {c d : α} (h : Siblings child c d) (hc : ¬ TransGen child c c)
    (hcd : ReflTransGen child c d) : c = d := by
  rcases h with ⟨_, hroot⟩ | ⟨p, hpc, hpd⟩
  · exact hroot.eq_of_reach hcd
  · rcases reflTransGen_iff_eq_or_transGen.mp hcd with rfl | ht
    · rfl
    · have hcp := reach_parent unique ht hpd
      exact absurd (TransGen.tail' hcp hpc) hc

/-- The families of different siblings have no member in common. -/
theorem Siblings.eq {c d x : α} (h : Siblings child c d) (hcx : ¬ TransGen child c c)
    (hdx : ¬ TransGen child d d) (hc : ReflTransGen child c x) (hd : ReflTransGen child d x) : c = d := by
  rcases reach_total unique hc hd with hcd | hdc
  · exact h.eq_of_reach unique hcx hcd
  · exact (h.symm.eq_of_reach unique hdx hdc).symm

variable {before : α → α → Prop} (irrefl : ∀ x, ¬ before x x)
include irrefl

theorem Earlier.ne {x y : α} (h : Earlier child before x y) (hx : Rooted child x) : x ≠ y := by
  rintro rfl
  rcases h with h | ⟨c, d, hs, hb, hc, hd⟩
  · exact hx.acyclic unique .refl h
  · obtain rfl := hs.eq unique (hx.acyclic unique hc) (hx.acyclic unique hd) hc hd
    exact irrefl c hb

/-- No node comes before its own parent. -/
theorem not_earlier_parent {x parent : α} (hx : Rooted child x) (hp : child parent x) :
    ¬ Earlier child before x parent := by
  rintro (h | ⟨c, d, hs, hb, hc, hd⟩)
  · exact hx.acyclic unique .refl (h.tail hp)
  · have hd := hd.tail hp
    obtain rfl := hs.eq unique (hx.acyclic unique hc) (hx.acyclic unique hd) hc hd
    exact irrefl c hb

end OneParent

namespace ParentGraph
variable (g : ParentGraph α)

theorem leftUnique : Relator.LeftUnique g.Child := fun _ _ _ h h' => g.parent_unique _ _ _ h h'

variable {g}

theorem acyclic_of_reach {x y : α} (hx : ¬ g.Cyclic x) (h : ReflTransGen g.Child x y) : ¬ g.Cyclic y :=
  fun hy => hx (cyclic_of_reach g.leftUnique h hy)

open Classical in
/-- The nodes below a child are fewer than those below its parent. -/
theorem card_below_lt {x y : α} (hx : ¬ g.Cyclic x) (hc : g.Child x y) :
    {z ∈ g.nodes | TransGen g.Child y z}.card < {z ∈ g.nodes | TransGen g.Child x z}.card := by
  apply Finset.card_lt_card
  refine (Finset.ssubset_iff_of_subset fun z hz => ?_).mpr ⟨y, ?_, ?_⟩
  · obtain ⟨hn, ht⟩ := Finset.mem_filter.mp hz
    exact Finset.mem_filter.mpr ⟨hn, ht.head hc⟩
  · exact Finset.mem_filter.mpr ⟨g.kids_mem x y hc, .single hc⟩
  · intro hy
    exact acyclic_of_reach hx (.single hc) (Finset.mem_filter.mp hy).2

/-- Induction from the children of a node to the node, off every cycle. -/
theorem children_induction {motive : (x : α) → ¬ g.Cyclic x → Prop}
    (step : ∀ x hx, (∀ y (hy : y ∈ g.kids x), motive y (acyclic_of_reach hx (.single hy))) → motive x hx)
    (x : α) (hx : ¬ g.Cyclic x) : motive x hx := by
  classical
  induction hn : {z ∈ g.nodes | TransGen g.Child x z}.card using Nat.strong_induction_on generalizing x with
  | _ n ih =>
    refine step x hx fun y hy => ?_
    have hlt : _ < n := hn ▸ card_below_lt hx hy
    exact ih _ hlt y (acyclic_of_reach hx (.single hy)) rfl

/-- Without cycles every way up ends at a root. -/
theorem rooted_of_acyclic (acyclic : ∀ x, ¬ g.Cyclic x) (x : α) : Rooted g.Child x := by
  classical
  induction hn : {z ∈ g.nodes | TransGen g.Child z x}.card using Nat.strong_induction_on generalizing x with
  | _ n ih =>
    by_cases hroot : Root g.Child x
    · exact ⟨x, hroot, .refl⟩
    obtain ⟨p, hp⟩ := not_forall_not.mp hroot
    by_cases hproot : Root g.Child p
    · exact ⟨p, hproot, .single hp⟩
    obtain ⟨q, hq⟩ := not_forall_not.mp hproot
    have hlt : {z ∈ g.nodes | TransGen g.Child z p}.card < n := by
      rw [← hn]
      apply Finset.card_lt_card
      refine (Finset.ssubset_iff_of_subset fun z hz => ?_).mpr ⟨p, ?_, ?_⟩
      · obtain ⟨hz, ht⟩ := Finset.mem_filter.mp hz
        exact Finset.mem_filter.mpr ⟨hz, ht.tail hp⟩
      · exact Finset.mem_filter.mpr ⟨g.kids_mem q p hq, .single hp⟩
      · intro hmem
        exact acyclic p (Finset.mem_filter.mp hmem).2
    obtain ⟨root, hr, hreach⟩ := ih _ hlt p rfl
    exact ⟨root, hr, hreach.tail hp⟩

end ParentGraph

end ProcessExplorer.Library
