import ProcessExplorer.Cli.Output
import ProcessExplorer.Gui.TreeView
import ProcessExplorer.Intelligence.Refresh

/-! The process list of the command line, as a list and as an outline, beside the outline of the window. -/
namespace ProcessExplorer.Cli
open Library Model Model.ProcessTree Gui Intelligence Relation

/-- The rows in ascending order of their pids. -/
def ps (order : Visit ProcessSnapshot) (tree : ProcessTree) : List ProcessSnapshot :=
  (order.run (tree.nodes.entries.map (·.2))).mergeSort fun a b => a.pid ≤ b.pid

def subtreeLine (process : ProcessSnapshot) (pid : Pid) (depth : ℕ) : String :=
  String.join (List.replicate depth "  ") ++ process.name ++ " (pid " ++ toString pid ++ ", " ++
    oneDecimal process.cpu.percent ++ "% CPU, " ++ toString (process.memory.rss / 1024) ++ " KB RSS)"

/-- None when the fuel runs out, where the source recurses until its stack is used up. -/
def printSubtree (tree : ProcessTree) : ℕ → ℕ → Pid → Option (List String)
  | 0, _, _ => none
  | fuel + 1, depth, pid =>
    match tree.nodes.lookup pid with
    | none => some []
    | some process => do
      let below ← (sort (tree.kids pid)).mapM (printSubtree tree fuel (depth + 1))
      some (subtreeLine process pid depth :: below.flatten)

def rollupLine (pid : Pid) (rollup : FamilyRollup) : String :=
  "\nfamily rollup for " ++ toString pid ++ ": " ++ toString rollup.processCount ++ " processes, " ++
    oneDecimal rollup.cpuPercent ++ "% CPU, " ++ toString (rollup.rss / 1024) ++ " KB RSS, " ++
    toString rollup.threadCount ++ " threads, " ++ toString rollup.openFileCount ++ " open files"

/-- With `json` the whole table is printed, whatever the pid is. -/
def tree (toStringPretty : ProcessTree → Except String String) (rootOrder : Visit Pid) (processTree : ProcessTree)
    (pid : Option Pid) (json : Bool) (fuel : ℕ) : Option CommandOutput :=
  if json then some (printJson (toStringPretty processTree))
  else
    match pid with
    | some pid =>
      if pid ∈ processTree.nodes then do
        let outline ← printSubtree processTree fuel 0 pid
        let rollup ← processTree.aggregate fuel pid
        some ⟨0, outline ++ (rollup.map (rollupLine pid)).toList, []⟩
      else some (notFoundError pid)
    | none => do
      let outlines ← (sort (processTree.roots rootOrder)).mapM (printSubtree processTree fuel 0)
      some ⟨0, outlines.flatten, []⟩

variable {snapshots : List ProcessSnapshot} {toStringPretty : ProcessTree → Except String String}

theorem mem_ps {order buildOrder : Visit ProcessSnapshot} {process : ProcessSnapshot} :
    process ∈ ps order (build buildOrder snapshots) ↔ rowOf snapshots process.pid = some process := by
  rw [ps, (List.mergeSort_perm _ _).mem_iff, Visit.mem_run]
  exact mem_rows

theorem mem_map_ps {order buildOrder : Visit ProcessSnapshot} {pid : Pid} :
    pid ∈ (ps order (build buildOrder snapshots)).map (·.pid) ↔ (rowOf snapshots pid).isSome := by
  rw [List.mem_map, Option.isSome_iff_exists]
  constructor
  · rintro ⟨process, hprocess, rfl⟩
    exact ⟨process, mem_ps.mp hprocess⟩
  · rintro ⟨process, hrow⟩
    obtain rfl := rowOf_pid hrow
    exact ⟨process, mem_ps.mpr hrow, rfl⟩

/-- Sorting forgets the order in which a table was visited. -/
theorem sort_eq_of_mem_iff {l l' : List Pid} (hl : l.Nodup) (hl' : l'.Nodup) (h : ∀ x, x ∈ l ↔ x ∈ l') :
    sort l = sort l' := by
  have hperm : (sort l).Perm (sort l') :=
    (sort_perm l).trans (((List.perm_ext_iff_of_nodup hl hl').mpr h).trans (sort_perm l').symm)
  exact hperm.eq_of_pairwise (fun a b _ _ hab hba => absurd (Int32.lt_trans hab hba) Int32.lt_irrefl)
    (sort_ascending hl) (sort_ascending hl')

theorem sortedChildren_build (order order' : Visit ProcessSnapshot) :
    sortedChildren (build order snapshots) = sortedChildren (build order' snapshots) := by
  funext pid
  refine sort_eq_of_mem_iff (kids_build_nodup order snapshots pid) (kids_build_nodup order' snapshots pid) ?_
  intro child
  rw [mem_kids_build, mem_kids_build]

theorem sort_roots_build (order order' : Visit ProcessSnapshot) (rootOrder rootOrder' : Visit Pid) :
    sort ((build order snapshots).roots rootOrder) = sort ((build order' snapshots).roots rootOrder') := by
  refine sort_eq_of_mem_iff (roots_nodup order rootOrder) (roots_nodup order' rootOrder') ?_
  intro pid
  rw [mem_roots, mem_roots]

/-- The line is that of a row of the table. -/
def PrintsRow (snapshots : List ProcessSnapshot) (pid : Pid) (depth : ℕ) (line : String) : Prop :=
  ∃ process, rowOf snapshots pid = some process ∧ line = subtreeLine process pid depth

def lineOf (snapshots : List ProcessSnapshot) (pid : Pid) (depth : ℕ) : String :=
  (rowOf snapshots pid).elim "" fun process => subtreeLine process pid depth

theorem printsRow_lineOf {pid : Pid} (h : (rowOf snapshots pid).isSome) (depth : ℕ) :
    PrintsRow snapshots pid depth (lineOf snapshots pid depth) := by
  obtain ⟨process, hrow⟩ := Option.isSome_iff_exists.mp h
  exact ⟨process, hrow, by rw [lineOf, hrow, Option.elim_some]⟩

theorem printsRow_map_lineOf {α : Type} {pidOf : α → Pid} {depthOf : α → ℕ} {visits : List α}
    (h : ∀ v ∈ visits, (rowOf snapshots (pidOf v)).isSome) :
    List.Forall₂ (fun v line => PrintsRow snapshots (pidOf v) (depthOf v) line) visits
      (visits.map fun v => lineOf snapshots (pidOf v) (depthOf v)) := by
  rw [List.forall₂_map_right_iff, List.forall₂_same]
  exact fun v hv => printsRow_lineOf (h v hv) (depthOf v)

/-- The printing is an open walk from a row of the table. -/
theorem printSubtree_eq (order : Visit ProcessSnapshot) {fuel depth : ℕ} {pid : Pid}
    (h : (rowOf snapshots pid).isSome) : printSubtree (build order snapshots) fuel depth pid =
      depthFirst (sortedChildren (build order snapshots)) (fun _ _ => some true) (fun _ => true)
        (lineOf snapshots) fuel depth pid := by
  induction fuel generalizing depth pid with
  | zero => rfl
  | succ fuel ih =>
    obtain ⟨process, hrow⟩ := Option.isSome_iff_exists.mp h
    have hlookup : (build order snapshots).nodes.lookup pid = some process :=
      (lookup_collectNodes snapshots pid).trans hrow
    have hbelow : (sort ((build order snapshots).kids pid)).mapM (printSubtree (build order snapshots) fuel (depth + 1)) =
        (sortedChildren (build order snapshots) pid).mapM (depthFirst (sortedChildren (build order snapshots))
          (fun _ _ => some true) (fun _ => true) (lineOf snapshots) fuel (depth + 1)) :=
      mapM_congr fun child hchild => ih (mem_sortedChildren.mp hchild).present.2
    have hline : lineOf snapshots pid depth = subtreeLine process pid depth := by
      rw [lineOf, hrow, Option.elim_some]
    simp only [printSubtree, depthFirst, hlookup, hbelow, hline]
    rfl

/-- Fully expanded and without a search, the rows of the window are the lines that are printed. -/
theorem printSubtree_of_flattenNode {lower : Lowercase} (order : Visit ProcessSnapshot) {expanded : Finset Pid}
    (hall : ∀ pid, (rowOf snapshots pid).isSome → pid ∈ expanded) {fuel depth : ℕ} {pid : Pid}
    (h : (rowOf snapshots pid).isSome) {rows : List TreeRow}
    (hrows : flattenNode lower (build order snapshots) expanded [] fuel depth pid = some rows) :
    printSubtree (build order snapshots) fuel depth pid =
      some (rows.map fun row => lineOf snapshots row.pid row.depth) := by
  have hkeep : ∀ fuel x b, subtreeMatches lower (build order snapshots) [] fuel x = some b → some true = some b := by
    intro fuel x b hb
    cases fuel with
    | zero => cases hb
    | succ fuel => simpa [subtreeMatches, searchBelow] using hb
  have hopens : ∀ x, sortedChildren (build order snapshots) x ≠ [] →
      true = (decide (([] : Text) ≠ []) || decide (x ∈ expanded)) := by
    intro x hx
    obtain ⟨child, hchild⟩ := List.exists_mem_of_ne_nil _ hx
    simp [hall x (mem_sortedChildren.mp hchild).present.1]
  obtain ⟨lines, hlines, heq⟩ := depthFirst_agrees (fun row : TreeRow => lineOf snapshots row.pid row.depth) id
    (lineOf snapshots) (fun _ _ => rfl) hkeep hopens hrows
  rw [printSubtree_eq order h, hlines, ← heq, List.map_id]

/-- Without a pid the lines are those of the rows that the window shows when everything is expanded. -/
theorem tree_of_flattenTree {lower : Lowercase} (order : Visit ProcessSnapshot) (rootOrder : Visit Pid)
    {expanded : Finset Pid} {filter : String} (hall : ∀ pid, (rowOf snapshots pid).isSome → pid ∈ expanded)
    (hfilter : lower.run (Text.trim filter.toList) = []) {fuel : ℕ} {rows : List TreeRow}
    (h : flattenTree lower rootOrder (build order snapshots) expanded filter fuel = some rows) :
    tree toStringPretty rootOrder (build order snapshots) none false fuel =
      some ⟨0, rows.map fun row => lineOf snapshots row.pid row.depth, []⟩ := by
  simp only [flattenTree, hfilter, Option.bind_eq_bind, Option.bind_eq_some_iff, Option.some.injEq] at h
  obtain ⟨below, hbelow, rfl⟩ := h
  have hprinted : (sort ((build order snapshots).roots rootOrder)).mapM (printSubtree (build order snapshots) fuel 0) =
      some (below.map fun rows => rows.map fun row => lineOf snapshots row.pid row.depth) := by
    refine mapM_map_eq_some _ (fun root hroot rows hrows => ?_) hbelow
    have hpresent : IsRoot snapshots root := mem_roots.mp ((sort_perm _).mem_iff.mp hroot)
    exact printSubtree_of_flattenNode order hall (isRoot_iff.mp hpresent).1 hrows
  simp [tree, hprinted, List.map_flatten]

theorem tree_build_none (order order' : Visit ProcessSnapshot) (rootOrder rootOrder' : Visit Pid) :
    tree toStringPretty rootOrder (build order snapshots) none false =
      tree toStringPretty rootOrder' (build order' snapshots) none false := by
  funext fuel
  simp only [tree, Bool.false_eq_true, if_false, sort_roots_build order order' rootOrder rootOrder']
  congr 1
  apply mapM_congr
  intro root hroot
  have hpresent : IsRoot snapshots root := mem_roots.mp ((sort_perm _).mem_iff.mp hroot)
  rw [printSubtree_eq order (isRoot_iff.mp hpresent).1, printSubtree_eq order' (isRoot_iff.mp hpresent).1,
    sortedChildren_build order order']

theorem rootedAt_present {n : ℕ} {pid : Pid} (h : RootedAt snapshots n pid) : (rowOf snapshots pid).isSome := by
  obtain ⟨root, hroot, hbelow⟩ := h
  cases hbelow with
  | refl => exact (isRoot_iff.mp hroot).1
  | tail _ hp => exact hp.present.2

theorem rooted_of_rootedAt_iff {pid : Pid} :
    (∃ n, RootedAt snapshots n pid) ↔ (rowOf snapshots pid).isSome ∧ Rooted (ParentOf snapshots) pid := by
  constructor
  · rintro ⟨n, hn⟩
    have hpresent : (rowOf snapshots pid).isSome := rootedAt_present hn
    exact ⟨hpresent, (rooted_iff hpresent).mpr ⟨n, hn⟩⟩
  · rintro ⟨hpresent, hrooted⟩
    exact (rooted_iff hpresent).mp hrooted

theorem ancestor_present {ancestor pid : Pid} (h : TransGen (ParentOf snapshots) ancestor pid) :
    (rowOf snapshots ancestor).isSome := by
  obtain ⟨child, hchild, -⟩ := TransGen.head'_iff.mp h
  exact hchild.present.1

theorem present_of_reach {pid q : Pid} (hpid : (rowOf snapshots pid).isSome)
    (h : ReflTransGen (ParentOf snapshots) pid q) : (rowOf snapshots q).isSome := by
  rcases ReflTransGen.cases_tail h with rfl | ⟨parent, -, hparent⟩
  · exact hpid
  · exact hparent.present.2

/-- Whatever the order in which the tables were visited, the command line prints a line for every row of the window
with everything expanded and no search: the listed processes that have a root. -/
theorem tree_agrees_with_window (lower : Lowercase) (toStringPretty : ProcessTree → Except String String)
    (snapshots : List ProcessSnapshot) (order order' psOrder : Visit ProcessSnapshot) (rootOrder rootOrder' : Visit Pid)
    (expanded : Finset Pid) (filter : String) (hall : ∀ pid, (rowOf snapshots pid).isSome → pid ∈ expanded)
    (hfilter : Text.trim filter.toList = []) :
    ∃ output rows, Settles (tree toStringPretty rootOrder (build order snapshots) none false) output ∧
      Settles (flattenTree lower rootOrder' (build order' snapshots) expanded filter) rows ∧
      List.Forall₂ (fun row line => PrintsRow snapshots row.pid row.depth line) rows output.printed ∧
      ∀ pid, pid ∈ rows.map (·.pid) ↔ pid ∈ (ps psOrder (build order snapshots)).map (·.pid) ∧
        Rooted (ParentOf snapshots) pid := by
  have hlower : lower.run (Text.trim filter.toList) = [] := by rw [hfilter, lower.run_eq_nil]
  obtain ⟨visits, hsettles, hlisting⟩ : ∃ visits : List (Pid × ℕ),
      Settles (flattenTree lower rootOrder' (build order' snapshots) expanded filter)
        (visits.map (drawn (build order' snapshots))) ∧ _ :=
    flattenTree_settles lower order' expanded [] rootOrder' filter hlower.symm
  have hlines : Settles (tree toStringPretty rootOrder (build order snapshots) none false) ⟨0, (visits.map
      (drawn (build order' snapshots))).map fun row => lineOf snapshots row.pid row.depth, []⟩ := by
    obtain ⟨bound, hbound⟩ := hsettles
    refine ⟨bound, fun fuel hfuel => ?_⟩
    rw [tree_build_none order order' rootOrder rootOrder']
    exact tree_of_flattenTree order' rootOrder' hall hlower (hbound fuel hfuel)
  have hvisit (pid : Pid) (n : ℕ) : (pid, n) ∈ visits ↔ RootedAt snapshots n pid := by
    rw [hlisting.mem, shown_iff]
    constructor
    · exact fun h => h.1
    · exact fun h => ⟨h, ⟨pid, .refl, by simp⟩, fun ancestor ha => .inr (hall ancestor (ancestor_present ha))⟩
  have hrows : (visits.map (drawn (build order' snapshots))).map (·.pid) = visits.map Prod.fst := by
    simp [drawn, Function.comp_def]
  refine ⟨_, _, hlines, hsettles, ?_, fun pid => ?_⟩
  · refine printsRow_map_lineOf fun row hrow => ?_
    have hpid : row.pid ∈ visits.map Prod.fst := hrows ▸ List.mem_map_of_mem hrow
    obtain ⟨⟨pid, n⟩, hv, heq⟩ := List.mem_map.mp hpid
    exact heq ▸ rootedAt_present ((hvisit pid n).mp hv)
  · have hpids : pid ∈ (visits.map Prod.fst) ↔ ∃ n, RootedAt snapshots n pid := by
      simp only [List.mem_map, Prod.exists, exists_and_right, exists_eq_right, hvisit]
    rw [mem_map_ps, hrows, hpids, rooted_of_rootedAt_iff]

theorem tree_agrees_with_window_session : ∃ output rows,
    Settles (tree (fun _ => .ok "") .stored (build .stored session) none false) output ∧
    Settles (flattenTree .ascii .reversed (build .reversed session) (collectNodes session).keys.toFinset " ") rows ∧
    List.Forall₂ (fun row line => PrintsRow session row.pid row.depth line) rows output.printed := by
  have hall : ∀ pid, (rowOf session pid).isSome → pid ∈ (collectNodes session).keys.toFinset := by
    intro pid h
    rw [List.mem_toFinset, ← AList.mem_keys, mem_collectNodes]
    exact h
  obtain ⟨output, rows, hprinted, hshown, hsame, -⟩ := tree_agrees_with_window .ascii (fun _ => .ok "") session .stored
    .reversed .stored .stored .reversed _ " " hall (by decide)
  exact ⟨output, rows, hprinted, hshown, hsame⟩

/-- The parent links below a pid. -/
def ParentBelow (snapshots : List ProcessSnapshot) (pid parent child : Pid) : Prop :=
  ReflTransGen (ParentOf snapshots) pid parent ∧ ParentOf snapshots parent child

/-- The outline of one pid is its family: every member once, at its depth and after its parent. -/
structure FamilyOutline (snapshots : List ProcessSnapshot) (pid : Pid) (members : List Pid)
    (outline : List (Pid × ℕ)) : Prop where
  perm : (outline.map Prod.fst).Perm members
  depth : ∀ q n, (q, n) ∈ outline → Below (ParentOf snapshots) pid n q
  ordered : (outline.map Prod.fst).Pairwise (Earlier (ParentBelow snapshots pid) (· < ·))

theorem processCount_foldl (order : Visit ProcessSnapshot) {members : List Pid} (rollup : FamilyRollup)
    (h : ∀ pid ∈ members, (rowOf snapshots pid).isSome) :
    (members.foldl (build order snapshots).addMember rollup).processCount =
      rollup.processCount + UInt32.ofNat members.length := by
  induction members generalizing rollup with
  | nil => simp
  | cons pid members ih =>
    obtain ⟨snap, hrow⟩ := Option.isSome_iff_exists.mp (h pid List.mem_cons_self)
    have hlookup : (build order snapshots).nodes.lookup pid = some snap :=
      (lookup_collectNodes snapshots pid).trans hrow
    rw [List.foldl_cons, ih _ fun q hq => h q (List.mem_cons_of_mem pid hq), addMember, hlookup, List.length_cons]
    simp [UInt32.add_assoc, UInt32.add_comm]

/-- The printing from a pid off every cycle ends and lists its family, each member once. -/
theorem printSubtree_lists (order : Visit ProcessSnapshot) {pid : Pid} (h : (rowOf snapshots pid).isSome)
    (hacyclic : ¬ OnParentCycle snapshots pid) : ∃ visits : List (Pid × ℕ),
      Settles (fun fuel => printSubtree (build order snapshots) fuel 0 pid)
        (visits.map fun v => lineOf snapshots v.1 v.2) ∧
      (∀ q n, (q, n) ∈ visits ↔ Below (ParentOf snapshots) pid n q) ∧ (visits.map Prod.fst).Nodup ∧
      (visits.map Prod.fst).Pairwise (Earlier (ParentBelow snapshots pid) (· < ·)) := by
  have hc : ¬ (outlineGraph order snapshots).Cyclic pid := by
    rwa [ParentGraph.Cyclic, outlineGraph_child]
  have hchild : ((outlineGraph order snapshots).under pid).Child = ParentBelow snapshots pid := by
    funext parent child
    rw [ParentBelow, ← outlineGraph_child order]
    exact propext ParentGraph.under_child
  obtain ⟨visits, hwalk, hmem, hnodup, hordered⟩ := ParentGraph.depthFirst_family
    (fun x => sort_ascending (kids_build_nodup order snapshots x)) (fun _ => Int32.lt_irrefl) (lineOf snapshots)
    pid hc
  rw [outlineGraph_child] at hmem
  rw [hchild] at hordered
  refine ⟨visits, ?_, hmem, hnodup, hordered⟩
  simp only [printSubtree_eq order h]
  exact hwalk

/-- From a pid that is its own ancestor no fuel is enough. -/
theorem printSubtree_of_cycle (order : Visit ProcessSnapshot) {pid : Pid} (h : OnParentCycle snapshots pid)
    (fuel depth : ℕ) : printSubtree (build order snapshots) fuel depth pid = none := by
  have hpresent : (rowOf snapshots pid).isSome := (mem_collectNodes snapshots pid).mp h.mem
  have hloop : TransGen (outlineGraph order snapshots).Child pid pid := by
    rw [outlineGraph_child]
    exact h
  rw [printSubtree_eq order hpresent]
  exact depthFirst_eq_none _ (fun _ _ => rfl) (fun _ => rfl) hloop fuel depth

/-- Visits to what is below the pid, none twice, are visits to its family. -/
theorem visits_perm_family {pid : Pid} {visits : List (Pid × ℕ)} {members : List Pid}
    (hnearest : NearestFirst snapshots pid members)
    (hmem : ∀ q n, (q, n) ∈ visits ↔ Below (ParentOf snapshots) pid n q) (hnodup : (visits.map Prod.fst).Nodup) :
    (visits.map Prod.fst).Perm members := by
  refine (List.perm_ext_iff_of_nodup hnodup hnearest.nodup).mpr fun q => ?_
  rw [hnearest.mem]
  constructor
  · intro hq
    obtain ⟨⟨q, n⟩, hv, rfl⟩ := List.mem_map.mp hq
    exact ((hmem q n).mp hv).reach
  · intro hq
    obtain ⟨n, hn⟩ := Below.exists_of_reach hq
    exact List.mem_map.mpr ⟨(q, n), (hmem q n).mpr hn, rfl⟩

/-- In plain output, a pid has a line for every member of its family and then the rollup, which counts them. An
absent pid is an error, and from a pid that is its own ancestor the recursion has no end. -/
theorem tree_of_pid (toStringPretty : ProcessTree → Except String String) (snapshots : List ProcessSnapshot)
    (order : Visit ProcessSnapshot) (rootOrder : Visit Pid) (pid : Pid) :
    let run := tree toStringPretty rootOrder (build order snapshots) (some pid) false
    (rowOf snapshots pid = none → ∀ fuel, run fuel = some (notFoundError pid)) ∧
    (OnParentCycle snapshots pid → ∀ fuel, run fuel = none) ∧
    ((rowOf snapshots pid).isSome → ¬ OnParentCycle snapshots pid → ∃ outline lines members rollup,
      Settles run ⟨0, lines ++ [rollupLine pid rollup], []⟩ ∧
      List.Forall₂ (fun visit line => PrintsRow snapshots visit.1 visit.2 line) outline lines ∧
      Settles (fun fuel => (build order snapshots).family fuel pid) members ∧
      FamilyOutline snapshots pid members outline ∧
      Settles (fun fuel => (build order snapshots).aggregate fuel pid) (some rollup) ∧
      rollup.processCount = UInt32.ofNat outline.length) := by
  refine ⟨fun hnone fuel => ?_, fun hcycle fuel => ?_, fun hpresent hacyclic => ?_⟩
  · have hm : pid ∉ (build order snapshots).nodes := by simp [build, mem_collectNodes, hnone]
    simp [tree, hm]
  · have hm : pid ∈ (build order snapshots).nodes := hcycle.mem
    simp [tree, hm, printSubtree_of_cycle order hcycle]
  · have hm : pid ∈ (build order snapshots).nodes := (mem_collectNodes snapshots pid).mpr hpresent
    obtain ⟨members, hfamily, hnearest⟩ := family_settles order hpresent hacyclic
    obtain ⟨visits, hwalk, hmem, hnodup, hordered⟩ := printSubtree_lists order hpresent hacyclic
    have hperm := visits_perm_family hnearest hmem hnodup
    have hmembers : ∀ q ∈ members, (rowOf snapshots q).isSome :=
      fun q hq => present_of_reach hpresent ((hnearest.mem q).mp hq)
    have hrollup : Settles (fun fuel => (build order snapshots).aggregate fuel pid)
        (some (members.foldl (build order snapshots).addMember ⟨0, 0, 0, 0, 0⟩)) := by
      simp only [aggregate, if_pos hm]
      exact hfamily.map _
    refine ⟨visits, visits.map fun v => lineOf snapshots v.1 v.2, members, _, ?_, ?_, hfamily,
      ⟨hperm, fun q n => (hmem q n).mp, hordered⟩, hrollup, ?_⟩
    · change Settles (fun fuel => tree toStringPretty rootOrder (build order snapshots) (some pid) false fuel) _
      simp only [tree, Bool.false_eq_true, if_false, if_pos hm]
      exact hwalk.bind (hrollup.bind (.const _))
    · exact printsRow_map_lineOf fun v hv => hmembers v.1 (hperm.mem_iff.mp (List.mem_map_of_mem hv))
    · have hlength : visits.length = members.length := by simpa using hperm.length_eq
      rw [processCount_foldl order _ hmembers, hlength]
      exact UInt32.zero_add _

end ProcessExplorer.Cli
