import ProcessExplorer.Library.Forest
import ProcessExplorer.Library.Fuel

/-! Depth-first listing with pruning, over a graph in which every node has at
most one parent: a node is listed when it is kept, and the walk goes below a
node when it is open. -/
namespace ProcessExplorer.Library
open Relation
variable {α ρ : Type}

def searchBelow (kids : α → List α) (hit : α → Bool) : ℕ → α → Option Bool
  | 0, _ => none
  | fuel + 1, x => if hit x then some true else (kids x).anyM (searchBelow kids hit fuel)

/-- A row for the node, then in turn the rows of its children one level deeper. -/
def depthFirst (kids : α → List α) (keep : ℕ → α → Option Bool) (opens : α → Bool) (row : α → ℕ → ρ) :
    ℕ → ℕ → α → Option (List ρ)
  | 0, _, _ => none
  | fuel + 1, depth, x => do
    if !(← keep fuel x) then
      some []
    else if opens x then
      let below ← (kids x).mapM (depthFirst kids keep opens row fuel (depth + 1))
      some (row x depth :: below.flatten)
    else
      some [row x depth]

section Walks
variable {σ τ : Type} {kids : α → List α} {keep keep' : ℕ → α → Option Bool} {opens opens' : α → Bool}

/-- A walk whose tests have the answers of another one that ends lists the same, row by row. -/
theorem depthFirst_agrees (f : ρ → τ) (f' : σ → τ) {row : α → ℕ → ρ} (row' : α → ℕ → σ)
    (hrow : ∀ x depth, f' (row' x depth) = f (row x depth))
    (hkeep : ∀ fuel x b, keep fuel x = some b → keep' fuel x = some b)
    (hopens : ∀ x, kids x ≠ [] → opens' x = opens x) {fuel depth : ℕ} {x : α} {rows : List ρ}
    (h : depthFirst kids keep opens row fuel depth x = some rows) :
    ∃ rows', depthFirst kids keep' opens' row' fuel depth x = some rows' ∧ rows'.map f' = rows.map f := by
  induction fuel generalizing depth x rows with
  | zero => cases h
  | succ fuel ih =>
    have hbelow {l : List α} {below : List (List ρ)}
        (h : l.mapM (depthFirst kids keep opens row fuel (depth + 1)) = some below) :
        ∃ below', l.mapM (depthFirst kids keep' opens' row' fuel (depth + 1)) = some below' ∧
          below'.flatten.map f' = below.flatten.map f := by
      rw [mapM_eq_some_iff] at h
      induction h with
      | nil => exact ⟨[], rfl, rfl⟩
      | cons hx _ ihl =>
        obtain ⟨rows', hrows', heq⟩ := ih hx
        obtain ⟨below', hbelow', hflat⟩ := ihl
        refine ⟨rows' :: below', ?_, by simp [heq, hflat]⟩
        rw [mapM_eq_some_iff] at hbelow' ⊢
        exact .cons hrows' hbelow'
    cases hk : keep fuel x with
    | none =>
      rw [depthFirst, hk] at h
      cases h
    | some kept =>
      simp only [depthFirst, hk, hkeep fuel x kept hk, Option.bind_eq_bind, Option.bind_some] at h ⊢
      cases kept with
      | false =>
        obtain rfl := Option.some.inj h
        exact ⟨[], rfl, rfl⟩
      | true =>
        by_cases hkids : kids x = []
        · -- There is nothing below, open or not.
          refine ⟨[row' x depth], ?_, ?_⟩
          · simp [hkids]
          · have hrows : some [row x depth] = some rows := by simpa [hkids] using h
            obtain rfl := Option.some.inj hrows
            simp [hrow]
        · rw [hopens x hkids]
          cases ho : opens x with
          | false =>
            have hrows : some [row x depth] = some rows := by simpa [ho] using h
            obtain rfl := Option.some.inj hrows
            exact ⟨[row' x depth], by simp, by simp [hrow]⟩
          | true =>
            obtain ⟨below, hall, rfl⟩ : ∃ below, (kids x).mapM (depthFirst kids keep opens row fuel (depth + 1)) =
                some below ∧ row x depth :: below.flatten = rows := by
              simpa [ho, Option.bind_eq_some_iff] using h
            obtain ⟨below', hall', hflat⟩ := hbelow hall
            exact ⟨row' x depth :: below'.flatten, by simp [hall'], by simp [hrow, hflat]⟩

/-- An open walk never ends on a cycle. -/
theorem depthFirst_eq_none (row : α → ℕ → ρ) (hkeep : ∀ fuel x, keep fuel x = some true) (hopens : ∀ x, opens x)
    {x : α} (hx : TransGen (fun x y => y ∈ kids x) x x) (fuel depth : ℕ) :
    depthFirst kids keep opens row fuel depth x = none := by
  induction fuel generalizing depth x with
  | zero => rfl
  | succ fuel ih =>
    obtain ⟨y, hy, hback⟩ := TransGen.head'_iff.mp hx
    have hcycle : TransGen (fun x y => y ∈ kids x) y y := TransGen.tail' hback hy
    have hbelow : (kids x).mapM (depthFirst kids keep opens row fuel (depth + 1)) = none :=
      mapM_eq_none hy (ih hcycle (depth + 1))
    simp [depthFirst, hkeep, hopens, hbelow]

end Walks

namespace ParentGraph
variable (g : ParentGraph α)

open Classical in
/-- Off every cycle the search ends, with the answer it stands for. -/
theorem searchBelow_settles (hit : α → Bool) (x : α) (hx : ¬ g.Cyclic x) :
    Settles (fun fuel => searchBelow g.kids hit fuel x)
      (decide (∃ y, ReflTransGen g.Child x y ∧ hit y = true)) := by
  induction x, hx using children_induction with
  | step x hx ih =>
    apply Settles.of_succ
    simp only [searchBelow]
    by_cases hhit : hit x = true
    · rw [decide_eq_true ⟨x, .refl, hhit⟩]
      simp only [hhit, if_true]
      exact .const true
    · simp only [hhit]
      have hany := Settles.anyM fun y hy => ih y hy
      have heq : (g.kids x).any (fun y => decide (∃ z, ReflTransGen g.Child y z ∧ hit z = true)) =
          decide (∃ z, ReflTransGen g.Child x z ∧ hit z = true) := by
        rw [Bool.eq_iff_iff, List.any_eq_true, decide_eq_true_eq]
        simp only [decide_eq_true_eq]
        constructor
        · rintro ⟨y, hy, z, hz, ht⟩
          exact ⟨z, hz.head hy, ht⟩
        · rintro ⟨z, hz, ht⟩
          rcases ReflTransGen.cases_head hz with rfl | ⟨y, hy, hyz⟩
          · exact absurd ht hhit
          · exact ⟨y, hy, z, hyz, ht⟩
      rw [← heq]
      exact hany

/-- What the listing of a node's family shows, with its depth: kept nodes to
which every node on the way is open. -/
def Shown (keep opens : α → Prop) (x : α) (depth : ℕ) (visit : α × ℕ) : Prop :=
  ∃ n, visit.2 = depth + n ∧ Below g.Child x n visit.1 ∧ keep visit.1 ∧
    ∀ z, ReflTransGen g.Child x z → TransGen g.Child z visit.1 → opens z

/-- The nodes of one or more families in depth-first order, with their depths. -/
structure Listing (keep opens : α → Prop) (before : α → α → Prop) (tops : List α) (depth : ℕ)
    (visits : List (α × ℕ)) : Prop where
  mem : ∀ visit, visit ∈ visits ↔ ∃ x ∈ tops, g.Shown keep opens x depth visit
  ordered : (visits.map Prod.fst).Pairwise (Earlier g.Child before)

variable {g} {keep opens : α → Prop} {before : α → α → Prop}

theorem Shown.reach {x : α} {depth : ℕ} {visit : α × ℕ} (h : g.Shown keep opens x depth visit) :
    ReflTransGen g.Child x visit.1 := by
  obtain ⟨n, _, hb, _⟩ := h
  exact hb.reach

theorem Listing.append {tops : List α} {depth : ℕ} {visitss : List (List (α × ℕ))}
    (hs : ∀ x ∈ tops, ∀ y ∈ tops, Siblings g.Child x y) (hb : tops.Pairwise before)
    (h : List.Forall₂ (fun x visits => g.Listing keep opens before [x] depth visits) tops visitss) :
    g.Listing keep opens before tops depth visitss.flatten := by
  induction h with
  | nil => exact ⟨by simp, List.Pairwise.nil⟩
  | @cons x visits tops visitss hx h ih =>
    have hrest := ih (fun y hy z hz => hs y (List.mem_cons_of_mem x hy) z (List.mem_cons_of_mem x hz)) hb.of_cons
    refine ⟨fun visit => ?_, ?_⟩
    · rw [List.flatten_cons, List.mem_append, hx.mem, hrest.mem]
      simp
    · rw [List.flatten_cons, List.map_append]
      refine List.pairwise_append.mpr ⟨hx.ordered, hrest.ordered, ?_⟩
      intro a ha b hb'
      obtain ⟨visit, hv, rfl⟩ := List.mem_map.mp ha
      obtain ⟨visit', hv', rfl⟩ := List.mem_map.mp hb'
      obtain ⟨x', hx', hshown⟩ := (hx.mem visit).mp hv
      obtain rfl := List.mem_singleton.mp hx'
      obtain ⟨y, hy, hshown'⟩ := (hrest.mem visit').mp hv'
      exact .inr ⟨x', y, hs x' List.mem_cons_self y (List.mem_cons_of_mem x' hy),
        List.rel_of_pairwise_cons hb hy, hshown.reach, hshown'.reach⟩

/-- Below an open kept node everything is shown that a child's listing shows. -/
theorem shown_iff_of_opens {x : α} {depth : ℕ} (hx : ¬ g.Cyclic x) (hkeep : keep x) (hopen : opens x)
    (visit : α × ℕ) : g.Shown keep opens x depth visit ↔
      visit = (x, depth) ∨ ∃ y ∈ g.kids x, g.Shown keep opens y (depth + 1) visit := by
  obtain ⟨z, e⟩ := visit
  constructor
  · rintro ⟨n, he, hb, hk, ho⟩
    rcases hb.cases_head with ⟨rfl, hz⟩ | ⟨m, y, rfl, hy, hm⟩
    · left
      exact Prod.ext hz he
    · right
      refine ⟨y, hy, m, ?_, hm, hk, fun w hw hwz => ho w (hw.head hy) hwz⟩
      change e = depth + (m + 1) at he
      change e = depth + 1 + m
      omega
  · rintro (he | ⟨y, hy, n, he, hb, hk, ho⟩)
    · obtain ⟨rfl, rfl⟩ := Prod.mk.inj he
      exact ⟨0, rfl, .refl, hkeep, fun w hw hwz => absurd (TransGen.trans_right hw hwz) hx⟩
    · refine ⟨n + 1, ?_, .head hy hb, hk, fun w hw hwz => ?_⟩
      · change e = depth + 1 + n at he
        change e = depth + (n + 1)
        omega
      rcases ReflTransGen.cases_head hw with rfl | ⟨y', hy', hyw⟩
      · exact hopen
      · have hs : Siblings g.Child y' y := .inr ⟨x, hy', hy⟩
        obtain rfl := hs.eq g.leftUnique (acyclic_of_reach hx (.single hy')) (acyclic_of_reach hx (.single hy))
          (hyw.trans hwz.to_reflTransGen) hb.reach
        exact ho w hyw hwz

theorem Listing.nil {x : α} {depth : ℕ} (h : ∀ visit, ¬ g.Shown keep opens x depth visit) :
    g.Listing keep opens before [x] depth [] where
  mem visit := by simpa using h visit
  ordered := List.Pairwise.nil

theorem Listing.single {x : α} {depth : ℕ} (hx : ¬ g.Cyclic x) (hkeep : keep x) (hopen : ¬ opens x) :
    g.Listing keep opens before [x] depth [(x, depth)] where
  mem visit := by
    simp only [List.mem_singleton, exists_eq_left]
    constructor
    · rintro rfl
      exact ⟨0, rfl, .refl, hkeep, fun z hz hzx => absurd (TransGen.trans_right hz hzx) hx⟩
    · rintro ⟨n, he, hb, _, ho⟩
      rcases hb.cases_head with ⟨rfl, hz⟩ | ⟨m, y, rfl, hy, hm⟩
      · exact Prod.ext hz he
      · exact absurd (ho x .refl (TransGen.head' hy hm.reach)) hopen
  ordered := List.pairwise_singleton _ _

theorem Listing.cons {x : α} {depth : ℕ} {visits : List (α × ℕ)} (hx : ¬ g.Cyclic x) (hkeep : keep x)
    (hopen : opens x) (h : g.Listing keep opens before (g.kids x) (depth + 1) visits) :
    g.Listing keep opens before [x] depth ((x, depth) :: visits) where
  mem visit := by
    simp only [List.mem_cons, h.mem, List.not_mem_nil, or_false, exists_eq_left]
    exact (shown_iff_of_opens hx hkeep hopen visit).symm
  ordered := by
    refine List.Pairwise.cons (fun a ha => ?_) h.ordered
    obtain ⟨visit, hv, rfl⟩ := List.mem_map.mp ha
    obtain ⟨y, hy, hshown⟩ := (h.mem visit).mp hv
    exact .inl (TransGen.head' hy hshown.reach)

/-- The walk from a node off every cycle ends and lists its family. -/
theorem depthFirst_listing (hsorted : ∀ x, (g.kids x).Pairwise before) {kept : α → Bool}
    {keep : ℕ → α → Option Bool} (hkeep : ∀ x, ¬ g.Cyclic x → Settles (fun fuel => keep fuel x) (kept x))
    (hup : ∀ x y, ReflTransGen g.Child x y → kept y = true → kept x = true) (opens : α → Bool)
    (row : α → ℕ → ρ) (x : α) (hx : ¬ g.Cyclic x) (depth : ℕ) : ∃ visits : List (α × ℕ),
      Settles (fun fuel => depthFirst g.kids keep opens row fuel depth x) (visits.map fun v => row v.1 v.2) ∧
      g.Listing (kept · = true) (opens · = true) before [x] depth visits := by
  induction x, hx using children_induction generalizing depth with
  | step x hx ih =>
    cases hk : kept x with
    | false =>
      refine ⟨[], Settles.of_succ ?_, Listing.nil fun visit hv => ?_⟩
      · have hkeep := hkeep x hx
        rw [hk] at hkeep
        exact hkeep.bind (.const [])
      · obtain ⟨_, _, hb, hkv, _⟩ := hv
        exact Bool.false_ne_true (hk.symm.trans (hup x _ hb.reach hkv))
    | true =>
      have hkeep := hkeep x hx
      rw [hk] at hkeep
      cases ho : opens x with
      | false =>
        refine ⟨[(x, depth)], Settles.of_succ (hkeep.bind ?_), Listing.single hx hk (by simp [ho])⟩
        simp only [ho]
        exact .const [row x depth]
      | true =>
        obtain ⟨visitss, hsettles, hall⟩ := Settles.mapM fun y hy => ih y hy (depth + 1)
        have hsiblings : ∀ y ∈ g.kids x, ∀ z ∈ g.kids x, Siblings g.Child y z := fun y hy z hz =>
          .inr ⟨x, hy, hz⟩
        refine ⟨(x, depth) :: visitss.flatten, Settles.of_succ (hkeep.bind ?_),
          Listing.cons hx hk ho (Listing.append hsiblings (hsorted x) hall)⟩
        simp only [ho, List.map_cons, List.map_flatten]
        exact hsettles.bind (.const _)

section Family

open Classical in
noncomputable def under (g : ParentGraph α) (x : α) : ParentGraph α where
  kids y := if ReflTransGen g.Child x y then g.kids y else []
  nodes := g.nodes
  kids_nodup y := by
    split_ifs
    · exact g.kids_nodup y
    · exact List.nodup_nil
  kids_mem y z h := by
    split_ifs at h
    · exact g.kids_mem y z h
    · cases h
  parent_unique y y' z h h' := by
    split_ifs at h h'
    · exact g.parent_unique y y' z h h'
    all_goals simp_all

theorem under_child {x y z : α} : (g.under x).Child y z ↔ ReflTransGen g.Child x y ∧ g.Child y z := by
  classical
  change z ∈ (if ReflTransGen g.Child x y then g.kids y else []) ↔ _
  split_ifs with h
  · simp [h, Child]
  · simp [h]

theorem root_under {x : α} (hx : ¬ g.Cyclic x) : Root (g.under x).Child x := by
  intro y hy
  obtain ⟨hreach, hchild⟩ := under_child.mp hy
  exact hx (TransGen.tail' hreach hchild)

theorem below_under {x y : α} {n : ℕ} : Below (g.under x).Child x n y ↔ Below g.Child x n y := by
  constructor
  · intro h
    induction h with
    | refl => exact .refl
    | tail _ hc ih => exact ih.tail (under_child.mp hc).2
  · intro h
    induction h with
    | refl => exact .refl
    | tail hb hc ih => exact ih.tail (under_child.mpr ⟨hb.reach, hc⟩)

theorem depthFirst_under (keep : ℕ → α → Option Bool) (opens : α → Bool) (row : α → ℕ → ρ) {x y : α}
    (h : ReflTransGen g.Child x y) (fuel depth : ℕ) :
    depthFirst (g.under x).kids keep opens row fuel depth y = depthFirst g.kids keep opens row fuel depth y := by
  induction fuel generalizing depth y with
  | zero => rfl
  | succ fuel ih =>
    have hkids : (g.under x).kids y = g.kids y := if_pos h
    have hbelow : (g.kids y).mapM (depthFirst (g.under x).kids keep opens row fuel (depth + 1)) =
        (g.kids y).mapM (depthFirst g.kids keep opens row fuel (depth + 1)) :=
      mapM_congr fun z hz => ih (h.tail hz) (depth + 1)
    simp only [depthFirst, hkids, hbelow]

/-- An open walk from a node off every cycle ends and lists its family, each member once. -/
theorem depthFirst_family (hsorted : ∀ x, (g.kids x).Pairwise before) (irrefl : ∀ x, ¬ before x x)
    (row : α → ℕ → ρ) (x : α) (hx : ¬ g.Cyclic x) : ∃ visits : List (α × ℕ),
      Settles (fun fuel => depthFirst g.kids (fun _ _ => some true) (fun _ => true) row fuel 0 x)
        (visits.map fun v => row v.1 v.2) ∧
      (∀ y n, (y, n) ∈ visits ↔ Below g.Child x n y) ∧ (visits.map Prod.fst).Nodup ∧
      (visits.map Prod.fst).Pairwise (Earlier (g.under x).Child before) := by
  have hroot := root_under hx
  have hsorted' (y : α) : ((g.under x).kids y).Pairwise before := by
    classical
    change (if ReflTransGen g.Child x y then g.kids y else []).Pairwise before
    split_ifs
    · exact hsorted y
    · exact .nil
  obtain ⟨visits, hwalk, hlisting⟩ : ∃ visits : List (α × ℕ), Settles _ _ ∧
      (g.under x).Listing (fun _ => true = true) (fun _ => true = true) before [x] 0 visits :=
    depthFirst_listing hsorted' (fun _ _ => Settles.const true) (fun _ _ _ h => h) (fun _ => true) row x
      hroot.acyclic 0
  have hmem (y : α) (n : ℕ) : (y, n) ∈ visits ↔ Below g.Child x n y := by
    rw [hlisting.mem, ← below_under]
    simp [Shown]
  refine ⟨visits, ?_, hmem, ?_, hlisting.ordered⟩
  · simpa only [depthFirst_under _ _ _ .refl] using hwalk
  · refine hlisting.ordered.imp_of_mem fun {y z} hy _ h => h.ne (g.under x).leftUnique irrefl ?_
    obtain ⟨⟨y, n⟩, hv, rfl⟩ := List.mem_map.mp hy
    exact ⟨x, hroot, (below_under.mpr ((hmem y n).mp hv)).reach⟩

end Family

end ParentGraph

end ProcessExplorer.Library
