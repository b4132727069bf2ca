import ProcessExplorer.Library.FamilySums
import ProcessExplorer.Library.NearestFirst
import ProcessExplorer.Model.Tree
import Mathlib.Algebra.Order.BigOperators.Group.Finset
import Mathlib.Algebra.Order.Monoid.Prod

/-! The roots of the hierarchy, and how the families of an acyclic table divide it. -/
namespace ProcessExplorer.Model.ProcessTree
open Library Relation

/-- In the order in which the keys of the table are visited. -/
def roots (order : Visit Pid) (tree : ProcessTree) : List Pid :=
  (order.run tree.nodes.keys).filter fun pid =>
    match tree.nodes.lookup pid with
    | none => false
    | some snap => snap.ppid = pid ∨ snap.ppid ∉ tree.nodes

/-- The row of the pid names a parent that is absent or is the pid itself. -/
def IsRoot (snapshots : List ProcessSnapshot) (pid : Pid) : Prop :=
  ∃ snap, rowOf snapshots pid = some snap ∧ (snap.ppid = pid ∨ rowOf snapshots snap.ppid = none)

/-- That many parent links lead from the pid up to a root. -/
def RootedAt (snapshots : List ProcessSnapshot) (n : ℕ) (pid : Pid) : Prop :=
  ∃ root, IsRoot snapshots root ∧ Below (ParentOf snapshots) root n pid

variable {snapshots : List ProcessSnapshot}

theorem mem_roots {buildOrder : Visit ProcessSnapshot} {order : Visit Pid} {pid : Pid} :
    pid ∈ (build buildOrder snapshots).roots order ↔ IsRoot snapshots pid := by
  have hnodes : (build buildOrder snapshots).nodes = collectNodes snapshots := rfl
  rw [roots, List.mem_filter, Visit.mem_run, hnodes, ← AList.mem_keys, IsRoot, mem_collectNodes,
    lookup_collectNodes]
  cases rowOf snapshots pid with
  | none => simp
  | some snap => simp [mem_collectNodes]

theorem roots_nodup (buildOrder : Visit ProcessSnapshot) (order : Visit Pid) :
    ((build buildOrder snapshots).roots order).Nodup :=
  ((order.perm _).nodup_iff.mpr (AList.keys_nodup _)).filter _

/-- The two scans agree: a row is a root exactly when no child list names it. -/
theorem isRoot_iff {pid : Pid} :
    IsRoot snapshots pid ↔ (rowOf snapshots pid).isSome ∧ Root (ParentOf snapshots) pid := by
  constructor
  · rintro ⟨snap, hrow, hroot⟩
    refine ⟨by rw [hrow]; rfl, ?_⟩
    rintro parent ⟨snap', hrow', rfl, hp, hne⟩
    obtain rfl := Option.some.inj (hrow.symm.trans hrow')
    rcases hroot with hself | hnone
    · exact hne hself
    · rw [hnone] at hp
      cases hp
  · rintro ⟨hrow, hroot⟩
    obtain ⟨snap, hrow⟩ := Option.isSome_iff_exists.mp hrow
    refine ⟨snap, hrow, ?_⟩
    by_contra h
    obtain ⟨hne, hp⟩ := not_or.mp h
    exact hroot snap.ppid ⟨snap, hrow, rfl, Option.isSome_iff_ne_none.mpr hp, hne⟩

theorem ParentOf.present {parent child : Pid} (h : ParentOf snapshots parent child) :
    (rowOf snapshots parent).isSome ∧ (rowOf snapshots child).isSome := by
  obtain ⟨snap, hrow, _, hp, _⟩ := h
  exact ⟨hp, by rw [hrow]; rfl⟩

theorem graph_child (order : Visit ProcessSnapshot) :
    (graph order snapshots).Child = ParentOf snapshots := by
  funext x y
  exact propext (mem_kids_build order snapshots x y)

theorem parentOf_leftUnique : Relator.LeftUnique (ParentOf snapshots) :=
  have hchild : (graph .stored snapshots).Child = ParentOf snapshots := graph_child .stored
  hchild ▸ (graph .stored snapshots).leftUnique

theorem mem_graph_nodes {order : Visit ProcessSnapshot} {pid : Pid} :
    pid ∈ (graph order snapshots).nodes ↔ (rowOf snapshots pid).isSome := by
  rw [graph, List.mem_toFinset, ← AList.mem_keys, mem_collectNodes]

/-- Something rooted is in the table, and what is rooted has a root in the table. -/
theorem rooted_iff {pid : Pid} (h : (rowOf snapshots pid).isSome) :
    Rooted (ParentOf snapshots) pid ↔ ∃ n, RootedAt snapshots n pid := by
  constructor
  · rintro ⟨root, hroot, hr⟩
    have hp : (rowOf snapshots root).isSome := by
      rcases ReflTransGen.cases_head hr with rfl | ⟨c, hc, _⟩
      · exact h
      · exact hc.present.1
    obtain ⟨n, hn⟩ := Below.exists_of_reach hr
    exact ⟨n, root, isRoot_iff.mpr ⟨hp, hroot⟩, hn⟩
  · rintro ⟨n, root, hroot, hn⟩
    exact ⟨root, (isRoot_iff.mp hroot).2, hn.reach⟩

theorem RootedAt.unique {m n : ℕ} {pid : Pid} (hm : RootedAt snapshots m pid) (hn : RootedAt snapshots n pid) :
    m = n := by
  obtain ⟨root, hroot, hm⟩ := hm
  obtain ⟨root', hroot', hn⟩ := hn
  have hr := (isRoot_iff.mp hroot).2
  have hr' := (isRoot_iff.mp hroot').2
  obtain rfl := hr'.eq_of_reach (hr.reach_of_reach parentOf_leftUnique hm.reach hn.reach)
  exact hm.steps_unique parentOf_leftUnique hr.acyclic hn

/-- Processes, resident bytes, threads and open files, counted without bounds. -/
abbrev Totals := ℕ × ℕ × ℕ × ℕ

def own (snap : ProcessSnapshot) : Totals :=
  (1, snap.memory.rss.toNat, snap.threadCount.toNat, snap.openFileCount.toNat)

def ownOf (snapshots : List ProcessSnapshot) (pid : Pid) : Totals :=
  ((rowOf snapshots pid).map own).getD 0

def totals (rollup : FamilyRollup) : Totals :=
  (rollup.processCount.toNat, rollup.rss.toNat, rollup.threadCount.toNat, rollup.openFileCount.toNat)

def tableTotals (snapshots : List ProcessSnapshot) : Totals :=
  ((collectNodes snapshots).entries.map fun row => own row.2).sum

/-- Each total fits in the integer type that holds it. -/
def Fits (t : Totals) : Prop :=
  t.1 < UInt32.size ∧ t.2.1 < UInt64.size ∧ t.2.2.1 < UInt32.size ∧ t.2.2.2 < UInt32.size

instance (t : Totals) : Decidable (Fits t) := inferInstanceAs (Decidable (_ ∧ _ ∧ _ ∧ _))

theorem Fits.mono {t u : Totals} (h : Fits u) (hle : t ≤ u) : Fits t :=
  ⟨hle.1.trans_lt h.1, hle.2.1.trans_lt h.2.1, hle.2.2.1.trans_lt h.2.2.1, hle.2.2.2.trans_lt h.2.2.2⟩

theorem ownOf_eq {pid : Pid} {snap : ProcessSnapshot} (h : rowOf snapshots pid = some snap) :
    ownOf snapshots pid = own snap := by
  rw [ownOf, h]
  rfl

theorem tableTotals_eq (order : Visit ProcessSnapshot) :
    tableTotals snapshots = ∑ pid ∈ (graph order snapshots).nodes, ownOf snapshots pid := by
  rw [graph, List.sum_toFinset _ (AList.keys_nodup _), tableTotals, AList.keys, List.keys, List.map_map]
  congr 1
  apply List.map_congr_left
  intro row hrow
  have hlookup := (HashMap.lookup_eq_some_iff _ _ _).mpr hrow
  rw [lookup_collectNodes] at hlookup
  exact (ownOf_eq hlookup).symm

/-- One member adds its own counts while the sums fit. -/
theorem totals_addMember (order : Visit ProcessSnapshot) {pid : Pid} (h : (rowOf snapshots pid).isSome)
    (rollup : FamilyRollup) (hf : Fits (totals rollup + ownOf snapshots pid)) :
    totals ((build order snapshots).addMember rollup pid) = totals rollup + ownOf snapshots pid := by
  obtain ⟨snap, hrow⟩ := Option.isSome_iff_exists.mp h
  have hlookup : (build order snapshots).nodes.lookup pid = some snap :=
    (lookup_collectNodes snapshots pid).trans hrow
  rw [ownOf_eq hrow] at hf ⊢
  obtain ⟨hcount, hrss, hthreads, hfiles⟩ := hf
  simp only [addMember, hlookup, totals, own, Prod.mk_add_mk, UInt32.toNat_add, UInt64.toNat_add]
  exact congrArg₂ Prod.mk (Nat.mod_eq_of_lt hcount) (congrArg₂ Prod.mk (Nat.mod_eq_of_lt hrss)
    (congrArg₂ Prod.mk (Nat.mod_eq_of_lt hthreads) (Nat.mod_eq_of_lt hfiles)))

theorem totals_foldl_addMember {order : Visit ProcessSnapshot} {members : List Pid}
    (h : ∀ pid ∈ members, (rowOf snapshots pid).isSome) (rollup : FamilyRollup)
    (hf : Fits (totals rollup + (members.map (ownOf snapshots)).sum)) :
    totals (members.foldl (build order snapshots).addMember rollup) =
      totals rollup + (members.map (ownOf snapshots)).sum := by
  induction members generalizing rollup with
  | nil => exact (add_zero _).symm
  | cons pid members ih =>
    rw [List.map_cons, List.sum_cons, ← add_assoc] at hf ⊢
    have hstep := totals_addMember order (h pid List.mem_cons_self) rollup
      (hf.mono le_self_add)
    rw [List.foldl_cons, ih (fun q hq => h q (List.mem_cons_of_mem pid hq)) _ (hstep ▸ hf), hstep]

/-- The pid and its descendants, once each, the nearer before the farther. -/
structure NearestFirst (snapshots : List ProcessSnapshot) (pid : Pid) (members : List Pid) : Prop where
  nodup : members.Nodup
  mem : ∀ q, q ∈ members ↔ ReflTransGen (ParentOf snapshots) pid q
  sorted : members.Pairwise fun a b => ∀ m n, Below (ParentOf snapshots) pid m a →
    Below (ParentOf snapshots) pid n b → m ≤ n

theorem family_settles (order : Visit ProcessSnapshot) {pid : Pid} (h : (rowOf snapshots pid).isSome)
    (hc : ¬ OnParentCycle snapshots pid) : ∃ members,
      Settles (fun fuel => (build order snapshots).family fuel pid) members ∧
      NearestFirst snapshots pid members := by
  have hg : ¬ (graph order snapshots).Cyclic pid := (cyclic_graph_iff order snapshots pid).not.mpr hc
  have hm : pid ∈ (build order snapshots).nodes := (mem_collectNodes snapshots pid).mpr h
  obtain ⟨fuel, members, he⟩ := (ParentGraph.breadthFirst_terminates_iff _ pid).mpr hg
  obtain ⟨hmem, hsorted⟩ := ParentGraph.breadthFirst_lists hg he
  refine ⟨members, ?_, ParentGraph.breadthFirst_nodup _ he, ?_, ?_⟩
  · simp only [family, if_pos hm]
    exact ParentGraph.breadthFirst_settles he
  · simpa only [graph_child] using hmem
  · refine hsorted.imp fun hle m n hm hn => ?_
    rw [← graph_child order] at hm hn
    rwa [ParentGraph.distance_eq hg hm, ParentGraph.distance_eq hg hn] at hle

/-- A rollup holds the sum over the family. -/
theorem aggregate_settles (order : Visit ProcessSnapshot) (hf : Fits (tableTotals snapshots)) {pid : Pid}
    (h : (rowOf snapshots pid).isSome) {members : List Pid}
    (hs : Settles (fun fuel => (build order snapshots).family fuel pid) members)
    (hn : NearestFirst snapshots pid members) : ∃ rollup,
      Settles (fun fuel => (build order snapshots).aggregate fuel pid) (some rollup) ∧
      totals rollup = ∑ q ∈ (graph order snapshots).family pid, ownOf snapshots q := by
  have hm : pid ∈ (build order snapshots).nodes := (mem_collectNodes snapshots pid).mpr h
  have hfamily : members.toFinset = (graph order snapshots).family pid := by
    ext q
    rw [List.mem_toFinset, hn.mem, ParentGraph.mem_family (mem_graph_nodes.mpr h), graph_child]
  have hsum : (members.map (ownOf snapshots)).sum =
      ∑ q ∈ (graph order snapshots).family pid, ownOf snapshots q := by
    rw [← hfamily, List.sum_toFinset _ hn.nodup]
  have hpresent : ∀ q ∈ members, (rowOf snapshots q).isSome := fun q hq => by
    rw [← List.mem_toFinset, hfamily, ParentGraph.mem_family_iff] at hq
    exact mem_graph_nodes.mp hq.1
  have hle : (members.map (ownOf snapshots)).sum ≤ tableTotals snapshots := by
    rw [hsum, tableTotals_eq order]
    exact Finset.sum_le_sum_of_subset fun q hq => (ParentGraph.mem_family_iff.mp hq).1
  refine ⟨members.foldl (build order snapshots).addMember ⟨0, 0, 0, 0, 0⟩, ?_, ?_⟩
  · simp only [aggregate, if_pos hm]
    exact hs.map _
  · have hzero : totals ⟨0, 0, 0, 0, 0⟩ = 0 := rfl
    rw [totals_foldl_addMember hpresent _ (by rw [hzero, zero_add]; exact hf.mono hle), hzero, zero_add, hsum]

theorem mem_roots_graph {order : Visit ProcessSnapshot} {rootOrder : Visit Pid} {pid : Pid} :
    pid ∈ (build order snapshots).roots rootOrder ↔
      pid ∈ (graph order snapshots).nodes ∧ Root (graph order snapshots).Child pid := by
  rw [mem_roots, isRoot_iff, mem_graph_nodes, graph_child]

theorem exists_root (order : Visit ProcessSnapshot) (rootOrder : Visit Pid)
    (acyclic : ∀ pid, ¬ (graph order snapshots).Cyclic pid) {pid : Pid} (h : (rowOf snapshots pid).isSome) :
    ∃ root ∈ (build order snapshots).roots rootOrder, ReflTransGen (ParentOf snapshots) root pid := by
  have hr := ParentGraph.rooted_of_acyclic acyclic pid
  rw [graph_child] at hr
  obtain ⟨n, root, hroot, hn⟩ := (rooted_iff h).mp hr
  exact ⟨root, mem_roots.mpr hroot, hn.reach⟩

/-- How the walks down from each pid divide a table, and how the roots exhaust it. -/
structure Divided (snapshots : List ProcessSnapshot) (tree : ProcessTree) (roots : List Pid)
    (family : Pid → List Pid) (aggregate : Pid → FamilyRollup) : Prop where
  family_ends : ∀ pid, (rowOf snapshots pid).isSome → Settles (fun fuel => tree.family fuel pid) (family pid)
  family_lists : ∀ pid, (rowOf snapshots pid).isSome → NearestFirst snapshots pid (family pid)
  aggregate_ends : ∀ pid, (rowOf snapshots pid).isSome →
    Settles (fun fuel => tree.aggregate fuel pid) (some (aggregate pid))
  aggregate_eq : ∀ pid snap, rowOf snapshots pid = some snap → totals (aggregate pid) =
    own snap + ((tree.kids pid).map fun child => totals (aggregate child)).sum
  apart : roots.Pairwise fun a b => (family a).Disjoint (family b)
  covers : ∀ pid, (rowOf snapshots pid).isSome ↔ ∃ root ∈ roots, pid ∈ family root
  roots_sum : (roots.map fun root => totals (aggregate root)).sum = tableTotals snapshots

section Roots
variable {order : Visit ProcessSnapshot} {rootOrder : Visit Pid} {family : Pid → List Pid}
  (acyclic : ∀ pid, ¬ (graph order snapshots).Cyclic pid)
  (lists : ∀ pid, (rowOf snapshots pid).isSome → NearestFirst snapshots pid (family pid))
include acyclic lists

theorem roots_apart :
    ((build order snapshots).roots rootOrder).Pairwise fun a b => (family a).Disjoint (family b) := by
  refine (roots_nodup order rootOrder).imp_of_mem fun {a b} ha hb hne q hqa hqb => hne ?_
  obtain ⟨hna, hra⟩ := mem_roots_graph.mp ha
  obtain ⟨hnb, hrb⟩ := mem_roots_graph.mp hb
  rw [(lists a (mem_graph_nodes.mp hna)).mem, ← graph_child order] at hqa
  rw [(lists b (mem_graph_nodes.mp hnb)).mem, ← graph_child order] at hqb
  have hs : Siblings (graph order snapshots).Child a b := .inl ⟨hra, hrb⟩
  exact hs.eq (ParentGraph.leftUnique _) (acyclic a) (acyclic b) hqa hqb

theorem roots_cover (pid : Pid) :
    (rowOf snapshots pid).isSome ↔ ∃ root ∈ (build order snapshots).roots rootOrder, pid ∈ family root := by
  constructor
  · intro h
    obtain ⟨root, hmem, hr⟩ := exists_root order rootOrder acyclic h
    exact ⟨root, hmem, ((lists root (mem_graph_nodes.mp (mem_roots_graph.mp hmem).1)).mem pid).mpr hr⟩
  · rintro ⟨root, hmem, hp⟩
    have hroot := mem_graph_nodes.mp (mem_roots_graph.mp hmem).1
    rcases ReflTransGen.cases_tail (((lists root hroot).mem pid).mp hp) with rfl | ⟨q, _, hq⟩
    · exact hroot
    · exact hq.present.2

end Roots

/-- Without parent cycles nothing is missed or counted twice. -/
theorem forest_divided (snapshots : List ProcessSnapshot) (order : Visit ProcessSnapshot)
    (rootOrder : Visit Pid) (acyclic : ∀ pid, ¬ OnParentCycle snapshots pid)
    (hf : Fits (tableTotals snapshots)) :
    ∃ family aggregate, Divided snapshots (build order snapshots)
      ((build order snapshots).roots rootOrder) family aggregate := by
  have hg : ∀ pid, ¬ (graph order snapshots).Cyclic pid := fun pid =>
    (cyclic_graph_iff order snapshots pid).not.mpr (acyclic pid)
  have hwalks : ∀ pid, ∃ members rollup, (rowOf snapshots pid).isSome →
      Settles (fun fuel => (build order snapshots).family fuel pid) members ∧
      NearestFirst snapshots pid members ∧
      Settles (fun fuel => (build order snapshots).aggregate fuel pid) (some rollup) ∧
      totals rollup = ∑ q ∈ (graph order snapshots).family pid, ownOf snapshots q := by
    intro pid
    by_cases h : (rowOf snapshots pid).isSome
    · obtain ⟨members, hs, hn⟩ := family_settles order h (acyclic pid)
      obtain ⟨rollup, ha, ht⟩ := aggregate_settles order hf h hs hn
      exact ⟨members, rollup, fun _ => ⟨hs, hn, ha, ht⟩⟩
    · exact ⟨[], ⟨0, 0, 0, 0, 0⟩, fun h' => absurd h' h⟩
  choose family aggregate hwalk using hwalks
  have lists : ∀ pid, (rowOf snapshots pid).isSome → NearestFirst snapshots pid (family pid) := fun pid h =>
    (hwalk pid h).2.1
  have sums : ∀ pid, (rowOf snapshots pid).isSome →
      totals (aggregate pid) = ∑ q ∈ (graph order snapshots).family pid, ownOf snapshots q := fun pid h =>
    (hwalk pid h).2.2.2
  refine ⟨family, aggregate, fun pid h => (hwalk pid h).1, lists, fun pid h => (hwalk pid h).2.2.1, ?_,
    roots_apart hg lists, roots_cover hg lists, ?_⟩
  · intro pid snap hrow
    have h : (rowOf snapshots pid).isSome := by rw [hrow]; rfl
    rw [sums pid h, ParentGraph.sum_family _ (mem_graph_nodes.mpr h) (hg pid), ownOf_eq hrow]
    congr 2
    apply List.map_congr_left
    intro child hchild
    exact (sums child ((mem_kids_build order snapshots pid child).mp hchild).present.2).symm
  · rw [tableTotals_eq order, ← ParentGraph.sum_roots _ hg (roots_nodup order rootOrder)
      (fun _ => mem_roots_graph) ?_]
    · congr 1
      apply List.map_congr_left
      intro root hmem
      exact sums root (mem_graph_nodes.mp (mem_roots_graph.mp hmem).1)
    · intro pid hp
      rw [graph_child]
      exact exists_root order rootOrder hg (mem_graph_nodes.mp hp)

/-- Parents that come before their children in some order form no cycle. -/
theorem not_onParentCycle_of_lt (h : ∀ parent child, ParentOf snapshots parent child → parent < child)
    (pid : Pid) : ¬ OnParentCycle snapshots pid := by
  intro hc
  have hlt : ∀ {a b : Pid}, TransGen (ParentOf snapshots) a b → a < b := fun ht => by
    induction ht with
    | single hab => exact h _ _ hab
    | tail _ hbc ih => exact Int32.lt_trans ih (h _ _ hbc)
  exact Int32.lt_irrefl (hlt hc)

/-- A login session beside a process that is its own parent. -/
def session : List ProcessSnapshot :=
  [snap 1 0 100 0 4096, snap 2 1 200 0 8192, snap 3 2 300 0 512, snap 4 1 400 0 256, snap 9 9 900 0 64]

theorem session_divided : ∃ family aggregate,
    Divided session (build .stored session) ((build .stored session).roots .reversed) family aggregate := by
  refine forest_divided session .stored .reversed (not_onParentCycle_of_lt fun parent child h => ?_) (by decide)
  obtain ⟨snap, hrow, rfl, _, hne⟩ := h
  obtain rfl := rowOf_pid hrow
  have hm := List.mem_reverse.mp (List.mem_of_find?_eq_some hrow)
  simp only [session, List.mem_cons, List.not_mem_nil, or_false] at hm
  rcases hm with rfl | rfl | rfl | rfl | rfl
  · decide
  · decide
  · decide
  · decide
  · exact absurd rfl hne

end ProcessExplorer.Model.ProcessTree
