import ProcessExplorer.Library.Forest
import Mathlib.Algebra.BigOperators.Group.Finset.Basic

/-! Sums over the families of a forest: families of different siblings are
summed apart, and the families of the roots make up the whole. -/
namespace ProcessExplorer.Library.ParentGraph
open Relation
variable {α M : Type} [DecidableEq α] [AddCommMonoid M] {g : ParentGraph α}

open Classical in
/-- The node and everything below it. -/
noncomputable def family (g : ParentGraph α) (x : α) : Finset α :=
  {y ∈ g.nodes | ReflTransGen g.Child x y}

omit [DecidableEq α] in
theorem mem_family_iff {x y : α} : y ∈ g.family x ↔ y ∈ g.nodes ∧ ReflTransGen g.Child x y := by
  classical exact Finset.mem_filter

omit [DecidableEq α] in
theorem mem_family {x y : α} (hx : x ∈ g.nodes) : y ∈ g.family x ↔ ReflTransGen g.Child x y := by
  rw [mem_family_iff, and_iff_right_iff_imp]
  intro h
  rcases ReflTransGen.cases_tail h with rfl | ⟨p, _, hp⟩
  · exact hx
  · exact g.kids_mem p y hp

omit [DecidableEq α] in
theorem disjoint_family {c d : α} (h : Siblings g.Child c d) (hc : ¬ g.Cyclic c) (hd : ¬ g.Cyclic d)
    (hne : c ≠ d) : Disjoint (g.family c) (g.family d) := by
  rw [Finset.disjoint_left]
  intro x hxc hxd
  exact hne (h.eq g.leftUnique hc hd (mem_family_iff.mp hxc).2 (mem_family_iff.mp hxd).2)

theorem sum_families (f : α → M) {tops : List α} (hn : tops.Nodup) (hc : ∀ x ∈ tops, ¬ g.Cyclic x)
    (hs : ∀ x ∈ tops, ∀ y ∈ tops, Siblings g.Child x y) :
    (tops.map fun x => ∑ y ∈ g.family x, f y).sum = ∑ y ∈ tops.toFinset.biUnion g.family, f y := by
  rw [Finset.sum_biUnion, List.sum_toFinset _ hn]
  intro x hx y hy hne
  rw [Finset.mem_coe, List.mem_toFinset] at hx hy
  exact disjoint_family (hs x hx y hy) (hc x hx) (hc y hy) hne

/-- A node off every cycle counts for itself, and the rest of its family for its children. -/
theorem sum_family (f : α → M) {x : α} (hx : x ∈ g.nodes) (hc : ¬ g.Cyclic x) :
    ∑ y ∈ g.family x, f y = f x + ((g.kids x).map fun c => ∑ y ∈ g.family c, f y).sum := by
  have hkids : ∀ y ∈ g.kids x, ¬ g.Cyclic y := fun y hy => acyclic_of_reach hc (.single hy)
  rw [sum_families f (g.kids_nodup x) hkids fun y hy z hz => .inr ⟨x, hy, hz⟩]
  have hfamily : g.family x = insert x ((g.kids x).toFinset.biUnion g.family) := by
    ext y
    rw [mem_family hx, Finset.mem_insert, Finset.mem_biUnion]
    simp only [List.mem_toFinset]
    constructor
    · intro h
      rcases ReflTransGen.cases_head h with rfl | ⟨c, hxc, hcy⟩
      · exact .inl rfl
      · exact .inr ⟨c, hxc, (mem_family (g.kids_mem x c hxc)).mpr hcy⟩
    · rintro (rfl | ⟨c, hxc, hcy⟩)
      · exact .refl
      · exact ((mem_family (g.kids_mem x c hxc)).mp hcy).head hxc
  rw [hfamily, Finset.sum_insert]
  intro h
  obtain ⟨c, hxc, hcx⟩ := Finset.mem_biUnion.mp h
  rw [List.mem_toFinset] at hxc
  exact hc (TransGen.head' hxc ((mem_family (g.kids_mem x c hxc)).mp hcx))

/-- Without cycles the families of the roots make up all nodes. -/
theorem sum_roots (f : α → M) (acyclic : ∀ x, ¬ g.Cyclic x) {roots : List α} (hn : roots.Nodup)
    (hroots : ∀ x, x ∈ roots ↔ x ∈ g.nodes ∧ Root g.Child x)
    (hrooted : ∀ x ∈ g.nodes, ∃ root ∈ roots, ReflTransGen g.Child root x) :
    (roots.map fun x => ∑ y ∈ g.family x, f y).sum = ∑ y ∈ g.nodes, f y := by
  rw [sum_families f hn (fun x _ => acyclic x) fun x hx y hy => .inl ⟨((hroots x).mp hx).2, ((hroots y).mp hy).2⟩]
  congr 1
  ext x
  rw [Finset.mem_biUnion]
  constructor
  · rintro ⟨root, _, hx⟩
    exact (mem_family_iff.mp hx).1
  · intro hx
    obtain ⟨root, hr, h⟩ := hrooted x hx
    exact ⟨root, List.mem_toFinset.mpr hr, (mem_family ((hroots root).mp hr).1).mpr h⟩

end ProcessExplorer.Library.ParentGraph
