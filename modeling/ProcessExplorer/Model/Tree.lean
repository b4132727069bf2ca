import ProcessExplorer.Library.Binary64
import ProcessExplorer.Library.BreadthFirst
import ProcessExplorer.Library.HashTable
import ProcessExplorer.Model.Process

/-! The process hierarchy: how it is built from one pass over the table, and
the two queries that walk down from a pid. -/
namespace ProcessExplorer.Model
open Library

structure ProcessTree where
  nodes : HashMap Pid ProcessSnapshot
  children : HashMap Pid (List Pid)

structure FamilyRollup where
  processCount : UInt32
  cpuPercent : ℚ
  rss : UInt64
  threadCount : UInt32
  openFileCount : UInt32
  deriving DecidableEq

namespace ProcessTree

/-- Later snapshots of one pid replace earlier ones. -/
def collectNodes (snapshots : List ProcessSnapshot) : HashMap Pid ProcessSnapshot :=
  snapshots.foldl (fun nodes snap => nodes.insert snap.pid snap) ∅

def linkChild (nodes : HashMap Pid ProcessSnapshot) (children : HashMap Pid (List Pid))
    (snap : ProcessSnapshot) : HashMap Pid (List Pid) :=
  if snap.ppid ∈ nodes ∧ snap.ppid ≠ snap.pid then
    children.insert snap.ppid ((children.lookup snap.ppid).getD [] ++ [snap.pid])
  else children

def build (order : Visit ProcessSnapshot) (snapshots : List ProcessSnapshot) : ProcessTree :=
  let nodes := collectNodes snapshots
  ⟨nodes, (order.run (nodes.entries.map (·.2))).foldl (linkChild nodes) ∅⟩

def kids (tree : ProcessTree) (pid : Pid) : List Pid := (tree.children.lookup pid).getD []

/-- The pid and every descendant in breadth-first order; none when the fuel runs out. -/
def family (tree : ProcessTree) (fuel : Nat) (pid : Pid) : Option (List Pid) :=
  if pid ∈ tree.nodes then breadthFirst tree.kids fuel [pid] [] else some []

def addMember (tree : ProcessTree) (rollup : FamilyRollup) (pid : Pid) : FamilyRollup :=
  match tree.nodes.lookup pid with
  | none => rollup
  | some snap =>
    { processCount := rollup.processCount + 1
      cpuPercent := toDouble (rollup.cpuPercent + snap.cpu.percent)
      rss := rollup.rss + snap.memory.rss
      threadCount := rollup.threadCount + snap.threadCount
      openFileCount := rollup.openFileCount + snap.openFileCount }

/-- The inner option is the answer for an absent pid, the outer one the fuel. -/
def aggregate (tree : ProcessTree) (fuel : Nat) (pid : Pid) : Option (Option FamilyRollup) :=
  if pid ∈ tree.nodes then
    (tree.family fuel pid).map fun members => some (members.foldl tree.addMember ⟨0, 0, 0, 0, 0⟩)
  else some none

/-- The snapshot that a table built from the list holds for a pid. -/
def rowOf (snapshots : List ProcessSnapshot) (pid : Pid) : Option ProcessSnapshot :=
  snapshots.reverse.find? (·.pid = pid)

theorem lookup_collectNodes (snapshots : List ProcessSnapshot) (pid : Pid) :
    (collectNodes snapshots).lookup pid = rowOf snapshots pid := by
  induction snapshots using List.reverseRecOn with
  | nil => simp [collectNodes, rowOf]
  | append_singleton rest snap ih =>
    rw [collectNodes, List.foldl_append, List.foldl_cons, List.foldl_nil, HashMap.lookup_insert]
    change (if pid = snap.pid then some snap else (collectNodes rest).lookup pid) = _
    rw [ih, rowOf, rowOf, List.reverse_append, List.reverse_singleton, List.singleton_append,
      List.find?_cons]
    by_cases h : snap.pid = pid
    · simp [h]
    · simp [h, Ne.symm h]

theorem rowOf_pid {snapshots : List ProcessSnapshot} {pid : Pid} {snap : ProcessSnapshot}
    (h : rowOf snapshots pid = some snap) : snap.pid = pid := by
  simpa using List.find?_some h

theorem mem_collectNodes (snapshots : List ProcessSnapshot) (pid : Pid) :
    pid ∈ collectNodes snapshots ↔ (rowOf snapshots pid).isSome := by
  rw [← lookup_collectNodes, AList.lookup_isSome]

/-- The rows of a table carry the pids under which they are stored. -/
theorem map_pid_rows (snapshots : List ProcessSnapshot) :
    ((collectNodes snapshots).entries.map (·.2)).map (·.pid) = (collectNodes snapshots).keys := by
  rw [List.map_map]
  apply List.map_congr_left
  intro entry he
  have := (HashMap.lookup_eq_some_iff _ _ _).mpr he
  rw [lookup_collectNodes] at this
  exact rowOf_pid this

theorem mem_rows {snapshots : List ProcessSnapshot} {snap : ProcessSnapshot} :
    snap ∈ (collectNodes snapshots).entries.map (·.2) ↔ rowOf snapshots snap.pid = some snap := by
  rw [← lookup_collectNodes, HashMap.lookup_eq_some_iff, List.mem_map]
  constructor
  · rintro ⟨⟨pid, row⟩, he, rfl⟩
    have hrow := (HashMap.lookup_eq_some_iff _ _ _).mpr he
    rw [lookup_collectNodes] at hrow
    rwa [rowOf_pid hrow]
  · intro he
    exact ⟨_, he, rfl⟩

/-- A table whose rows carry their own pids is rebuilt from the rows. -/
theorem lookup_collectNodes_rows {table : HashMap Pid ProcessSnapshot}
    (h : ∀ pid snap, table.lookup pid = some snap → snap.pid = pid) (pid : Pid) :
    (collectNodes (table.entries.map (·.2))).lookup pid = table.lookup pid := by
  have hrow {snap : ProcessSnapshot} (hm : snap ∈ table.entries.map (·.2)) : table.lookup snap.pid = some snap := by
    obtain ⟨⟨p, row⟩, he, rfl⟩ := List.mem_map.mp hm
    have hp := (HashMap.lookup_eq_some_iff _ _ _).mpr he
    rwa [h p row hp]
  rw [lookup_collectNodes, rowOf]
  cases hfind : (table.entries.map (·.2)).reverse.find? (·.pid = pid) with
  | some snap =>
    have hm := hrow (List.mem_reverse.mp (List.mem_of_find?_eq_some hfind))
    have hpid : snap.pid = pid := by simpa using List.find?_some hfind
    rw [← hm, hpid]
  | none =>
    cases hp : table.lookup pid with
    | none => rfl
    | some snap =>
      have hm := List.mem_map_of_mem (f := (·.2)) ((HashMap.lookup_eq_some_iff _ _ _).mp hp)
      have hne := List.find?_eq_none.mp hfind snap (List.mem_reverse.mpr hm)
      exact absurd (decide_eq_true (h pid snap hp)) hne

/-- One link is a parent present in the table and different from the child. -/
def Links (nodes : HashMap Pid ProcessSnapshot) (pid : Pid) (snap : ProcessSnapshot) : Bool :=
  pid ∈ nodes ∧ snap.ppid = pid ∧ snap.ppid ≠ snap.pid

theorem kids_foldl_linkChild (nodes : HashMap Pid ProcessSnapshot) (rows : List ProcessSnapshot)
    (children : HashMap Pid (List Pid)) (pid : Pid) :
    ((rows.foldl (linkChild nodes) children).lookup pid).getD [] =
      (children.lookup pid).getD [] ++ (rows.filter (Links nodes pid)).map (·.pid) := by
  induction rows generalizing children with
  | nil => simp
  | cons snap rows ih =>
    rw [List.foldl_cons, ih, List.filter_cons]
    rw [linkChild]
    by_cases hp : snap.ppid = pid
    · subst hp
      by_cases hl : snap.ppid ∈ nodes ∧ snap.ppid ≠ snap.pid
      · simp [hl, Links]
      · rw [if_neg hl, if_neg (by simpa [Links] using hl)]
    · rw [if_neg (c := Links nodes pid snap = true) (by simp [Links, hp])]
      split
      · rw [HashMap.lookup_insert, if_neg (Ne.symm hp)]
      · rfl

theorem kids_build (order : Visit ProcessSnapshot) (snapshots : List ProcessSnapshot) (pid : Pid) :
    (build order snapshots).kids pid =
      ((order.run ((collectNodes snapshots).entries.map (·.2))).filter
        (Links (collectNodes snapshots) pid)).map (·.pid) := by
  simpa [kids, build] using kids_foldl_linkChild (collectNodes snapshots)
    (order.run ((collectNodes snapshots).entries.map (·.2))) ∅ pid

/-- One step up: the row of the child names this parent, which has a row of its own. -/
def ParentOf (snapshots : List ProcessSnapshot) (parent child : Pid) : Prop :=
  ∃ snap, rowOf snapshots child = some snap ∧ snap.ppid = parent ∧
    (rowOf snapshots parent).isSome ∧ parent ≠ child

theorem mem_kids_build (order : Visit ProcessSnapshot) (snapshots : List ProcessSnapshot)
    (parent child : Pid) :
    child ∈ (build order snapshots).kids parent ↔ ParentOf snapshots parent child := by
  rw [kids_build, List.mem_map]
  simp only [List.mem_filter, Visit.mem_run, mem_rows, Links,
    mem_collectNodes, Bool.decide_and, Bool.and_eq_true, decide_eq_true_eq]
  constructor
  · rintro ⟨snap, ⟨hrow, hp, rfl, hne⟩, rfl⟩
    exact ⟨snap, hrow, rfl, hp, hne⟩
  · rintro ⟨snap, hrow, rfl, hp, hne⟩
    obtain rfl := rowOf_pid hrow
    exact ⟨snap, ⟨hrow, hp, rfl, hne⟩, rfl⟩

theorem kids_build_nodup (order : Visit ProcessSnapshot) (snapshots : List ProcessSnapshot)
    (pid : Pid) : ((build order snapshots).kids pid).Nodup := by
  rw [kids_build]
  have hkeys : ((order.run ((collectNodes snapshots).entries.map (·.2))).map (·.pid)).Nodup := by
    apply ((order.perm _).map _).nodup_iff.mpr
    rw [map_pid_rows]
    exact AList.keys_nodup _
  exact hkeys.sublist (List.filter_sublist.map _)

/-- The child lists of a built tree form a graph with at most one parent a node. -/
def graph (order : Visit ProcessSnapshot) (snapshots : List ProcessSnapshot) : ParentGraph Pid where
  kids := (build order snapshots).kids
  nodes := (collectNodes snapshots).keys.toFinset
  kids_nodup := kids_build_nodup order snapshots
  kids_mem x y h := by
    obtain ⟨snap, hrow, _⟩ := (mem_kids_build order snapshots x y).mp h
    rw [List.mem_toFinset, ← AList.mem_keys, mem_collectNodes, hrow]
    rfl
  parent_unique x x' y h h' := by
    obtain ⟨snap, hrow, hp, _⟩ := (mem_kids_build order snapshots x y).mp h
    obtain ⟨snap', hrow', hp', _⟩ := (mem_kids_build order snapshots x' y).mp h'
    rw [hrow] at hrow'
    obtain rfl := Option.some.inj hrow'
    exact hp.symm.trans hp'

/-- The pid is a proper ancestor of itself. -/
def OnParentCycle (snapshots : List ProcessSnapshot) (pid : Pid) : Prop :=
  Relation.TransGen (ParentOf snapshots) pid pid

theorem cyclic_graph_iff (order : Visit ProcessSnapshot) (snapshots : List ProcessSnapshot)
    (pid : Pid) : (graph order snapshots).Cyclic pid ↔ OnParentCycle snapshots pid := by
  have : (graph order snapshots).Child = ParentOf snapshots := by
    funext x y
    exact propext (mem_kids_build order snapshots x y)
  rw [ParentGraph.Cyclic, this, OnParentCycle]

theorem OnParentCycle.mem {snapshots : List ProcessSnapshot} {pid : Pid}
    (h : OnParentCycle snapshots pid) : pid ∈ collectNodes snapshots := by
  obtain ⟨_, ⟨_, _, _, hp, _⟩, _⟩ := Relation.TransGen.head'_iff.mp h
  exact (mem_collectNodes snapshots pid).mpr hp

/-- A walk down from a pid ends exactly when the pid is not its own ancestor. -/
theorem family_terminates_iff (order : Visit ProcessSnapshot) (snapshots : List ProcessSnapshot)
    (pid : Pid) :
    (∃ fuel members, (build order snapshots).family fuel pid = some members) ↔
      ¬ OnParentCycle snapshots pid := by
  by_cases hm : pid ∈ (build order snapshots).nodes
  · rw [← cyclic_graph_iff order, ← ParentGraph.breadthFirst_terminates_iff]
    simp only [family, if_pos hm]
    rfl
  · simp only [family, if_neg hm]
    exact ⟨fun _ hc => hm hc.mem, fun _ => ⟨0, [], rfl⟩⟩

theorem aggregate_terminates_iff (order : Visit ProcessSnapshot) (snapshots : List ProcessSnapshot)
    (pid : Pid) :
    (∃ fuel rollup, (build order snapshots).aggregate fuel pid = some rollup) ↔
      ∃ fuel members, (build order snapshots).family fuel pid = some members := by
  by_cases hm : pid ∈ (build order snapshots).nodes
  · simp only [aggregate, if_pos hm, Option.map_eq_some_iff]
    constructor
    · rintro ⟨fuel, _, members, hf, _⟩
      exact ⟨fuel, members, hf⟩
    · rintro ⟨fuel, members, hf⟩
      exact ⟨fuel, _, members, hf, rfl⟩
  · simp only [aggregate, family, if_neg hm]
    exact ⟨fun _ => ⟨0, [], rfl⟩, fun _ => ⟨0, none, rfl⟩⟩

theorem family_nodup {order : Visit ProcessSnapshot} {snapshots : List ProcessSnapshot} {pid : Pid}
    {fuel : Nat} {members : List Pid} (h : (build order snapshots).family fuel pid = some members) :
    members.Nodup := by
  rw [family] at h
  split at h
  · exact ParentGraph.breadthFirst_nodup (graph order snapshots) h
  · obtain rfl := Option.some.inj h
    exact List.nodup_nil

/-- Both walks end and list no pid twice exactly for the pids off every parent cycle. -/
theorem family_and_aggregate_total_iff (order : Visit ProcessSnapshot)
    (snapshots : List ProcessSnapshot) (pid : Pid) :
    ((∃ fuel members, (build order snapshots).family fuel pid = some members) ∧
      (∃ fuel rollup, (build order snapshots).aggregate fuel pid = some rollup) ∧
      ∀ fuel members, (build order snapshots).family fuel pid = some members → members.Nodup) ↔
      ¬ OnParentCycle snapshots pid := by
  rw [aggregate_terminates_iff, ← family_terminates_iff order]
  exact ⟨fun h => h.1, fun h => ⟨h, h, fun _ _ => family_nodup⟩⟩

/-- Two processes that name each other as parent, as reads around a reused pid can show them. -/
def mutualParents : List ProcessSnapshot := [snap 1 2 100 0 0, snap 2 1 200 0 0]

theorem mutual_parents_never_end :
    (¬ ∃ fuel members, (build .stored mutualParents).family fuel 1 = some members) ∧
      ¬ ∃ fuel rollup, (build .stored mutualParents).aggregate fuel 1 = some rollup := by
  have h21 : ParentOf mutualParents 2 1 := ⟨snap 1 2 100 0 0, by decide, rfl, by decide, by decide⟩
  have h12 : ParentOf mutualParents 1 2 := ⟨snap 2 1 200 0 0, by decide, rfl, by decide, by decide⟩
  rw [aggregate_terminates_iff, family_terminates_iff, not_not]
  exact ⟨.tail (.single h12) h21, .tail (.single h12) h21⟩

end ProcessTree
end ProcessExplorer.Model
