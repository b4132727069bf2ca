import ProcessExplorer.Library.DepthFirst
import ProcessExplorer.Library.Text
import ProcessExplorer.Model.Forest

/-! The process list as rows of an outline: which pids the expand state or a
search leaves visible, and in which order. -/
namespace ProcessExplorer.Gui
open Library Model Model.ProcessTree Relation

structure TreeRow where
  pid : Pid
  depth : ℕ
  hasChildren : Bool
  deriving DecidableEq

/-- A lowercase mapping of texts; it makes no text empty. -/
structure Lowercase where
  run : Text → Text
  run_eq_nil : ∀ t, run t = [] ↔ t = []

/-- The mapping on texts of ASCII characters. -/
def Lowercase.ascii : Lowercase := ⟨List.map Char.toLower, fun _ => List.map_eq_nil_iff⟩

def sort (pids : List Pid) : List Pid := pids.mergeSort fun a b => a ≤ b

def sortedChildren (tree : ProcessTree) (pid : Pid) : List Pid := sort (tree.kids pid)

def selfMatches (lower : Lowercase) (tree : ProcessTree) (filterLower : Text) (pid : Pid) : Bool :=
  match tree.nodes.lookup pid with
  | none => false
  | some node =>
    Text.contains filterLower (lower.run node.name.toList) || (toString pid).toList = filterLower

/-- The pid or a descendant matches; an empty filter matches everything. -/
def subtreeMatches (lower : Lowercase) (tree : ProcessTree) (filterLower : Text) : ℕ → Pid → Option Bool :=
  searchBelow tree.kids fun pid => filterLower = [] || selfMatches lower tree filterLower pid

def flattenNode (lower : Lowercase) (tree : ProcessTree) (expanded : Finset Pid) (filterLower : Text) :
    ℕ → ℕ → Pid → Option (List TreeRow) :=
  depthFirst (sortedChildren tree) (subtreeMatches lower tree filterLower)
    (fun pid => filterLower ≠ [] || pid ∈ expanded)
    fun pid depth => ⟨pid, depth, !(sortedChildren tree pid).isEmpty⟩

/-- None when the fuel runs out in the walk from some root. -/
def flattenTree (lower : Lowercase) (rootOrder : Visit Pid) (tree : ProcessTree) (expanded : Finset Pid)
    (filter : String) (fuel : ℕ) : Option (List TreeRow) := do
  let filterLower := lower.run (Text.trim filter.toList)
  let rows ← (sort (tree.roots rootOrder)).mapM (flattenNode lower tree expanded filterLower fuel 0)
  some rows.flatten

theorem sort_perm (pids : List Pid) : (sort pids).Perm pids := List.mergeSort_perm _ _

theorem sort_ascending {pids : List Pid} (h : pids.Nodup) : (sort pids).Pairwise (· < ·) := by
  have hsorted : (sort pids).Pairwise fun a b => decide (a ≤ b) = true := by
    apply List.pairwise_mergeSort
    · intro a b c hab hbc
      exact decide_eq_true (Int32.le_trans (of_decide_eq_true hab) (of_decide_eq_true hbc))
    · intro a b
      simpa using Int32.le_total a b
  have hnodup : (sort pids).Nodup := (sort_perm pids).nodup_iff.mpr h
  exact hsorted.imp₂ (fun a b hle hne => Int32.lt_of_le_of_ne (of_decide_eq_true hle) hne) hnodup

variable {snapshots : List ProcessSnapshot}

theorem mem_sortedChildren {order : Visit ProcessSnapshot} {parent child : Pid} :
    child ∈ sortedChildren (build order snapshots) parent ↔ ParentOf snapshots parent child := by
  rw [sortedChildren, (sort_perm _).mem_iff, mem_kids_build]

/-- The hierarchy with its child lists in ascending order. -/
def outlineGraph (order : Visit ProcessSnapshot) (snapshots : List ProcessSnapshot) : ParentGraph Pid :=
  { graph order snapshots with
    kids := sortedChildren (build order snapshots)
    kids_nodup := fun x => (sort_perm _).nodup_iff.mpr (kids_build_nodup order snapshots x)
    kids_mem := fun x y h => (graph order snapshots).kids_mem x y ((sort_perm _).mem_iff.mp h)
    parent_unique := fun x x' y h h' => (graph order snapshots).parent_unique x x' y
      ((sort_perm _).mem_iff.mp h) ((sort_perm _).mem_iff.mp h') }

theorem outlineGraph_child (order : Visit ProcessSnapshot) :
    (outlineGraph order snapshots).Child = ParentOf snapshots := by
  funext x y
  exact propext mem_sortedChildren

/-- The row's name or number is what the search asks for. -/
def Matches (lower : Lowercase) (snapshots : List ProcessSnapshot) (filter : String) (pid : Pid) : Prop :=
  ∃ snap, rowOf snapshots pid = some snap ∧
    (lower.run (Text.trim filter.toList) <:+: lower.run snap.name.toList ∨
      (toString pid).toList = lower.run (Text.trim filter.toList))

/-- The rooted pids whose ancestors are all expanded or, while a search is on,
that match or have a descendant that does. -/
def Displayed (lower : Lowercase) (snapshots : List ProcessSnapshot) (expanded : Finset Pid) (filter : String)
    (pid : Pid) : Prop :=
  (∃ n, RootedAt snapshots n pid) ∧
    if Text.trim filter.toList = [] then
      ∀ ancestor, TransGen (ParentOf snapshots) ancestor pid → ancestor ∈ expanded
    else
      ∃ descendant, ReflTransGen (ParentOf snapshots) pid descendant ∧ Matches lower snapshots filter descendant

/-- Rows in depth-first order, roots and siblings by ascending pid. -/
structure Outline (snapshots : List ProcessSnapshot) (shown : Pid → Prop) (rows : List TreeRow) : Prop where
  nodup : (rows.map (·.pid)).Nodup
  mem : ∀ pid, pid ∈ rows.map (·.pid) ↔ shown pid
  depth : ∀ row ∈ rows, RootedAt snapshots row.depth row.pid
  hasChildren : ∀ row ∈ rows, row.hasChildren = true ↔ ∃ child, ParentOf snapshots row.pid child
  after_parent : ∀ above row below parent, rows = above ++ row :: below →
    ParentOf snapshots parent row.pid → parent ∈ above.map (·.pid)
  ordered : (rows.map (·.pid)).Pairwise (Earlier (ParentOf snapshots) (· < ·))

theorem selfMatches_iff {lower : Lowercase} {order : Visit ProcessSnapshot} {filter : String} {pid : Pid} :
    selfMatches lower (build order snapshots) (lower.run (Text.trim filter.toList)) pid = true ↔
      Matches lower snapshots filter pid := by
  rw [selfMatches, Matches]
  have hlookup : (build order snapshots).nodes.lookup pid = rowOf snapshots pid := lookup_collectNodes _ _
  rw [hlookup]
  cases rowOf snapshots pid with
  | none => simp
  | some snap => simp [Text.contains]

section Listing
variable (lower : Lowercase) (order : Visit ProcessSnapshot) (expanded : Finset Pid) (filterLower : Text)

/-- Kept are the pids above or at a match; an empty filter keeps all. -/
def Kept (snapshots : List ProcessSnapshot) (pid : Pid) : Prop :=
  ∃ q, ReflTransGen (ParentOf snapshots) pid q ∧
    (filterLower = [] || selfMatches lower (build order snapshots) filterLower q) = true

open Classical in
theorem subtreeMatches_settles (pid : Pid) (hc : ¬ (outlineGraph order snapshots).Cyclic pid) :
    Settles (fun fuel => subtreeMatches lower (build order snapshots) filterLower fuel pid)
      (decide (Kept lower order filterLower snapshots pid)) := by
  rw [ParentGraph.Cyclic, outlineGraph_child, ← graph_child order] at hc
  have h := (graph order snapshots).searchBelow_settles
    (fun pid => filterLower = [] || selfMatches lower (build order snapshots) filterLower pid) pid hc
  rw [graph_child] at h
  exact h

/-- The row that the walk draws for a pid at a depth. -/
def drawn (tree : ProcessTree) (visit : Pid × ℕ) : TreeRow :=
  ⟨visit.1, visit.2, !(sortedChildren tree visit.1).isEmpty⟩

/-- The walks from all roots end, and together list what is kept and open. -/
theorem flattenTree_settles (rootOrder : Visit Pid) (filter : String)
    (hlower : filterLower = lower.run (Text.trim filter.toList)) : ∃ visits : List (Pid × ℕ),
      Settles (flattenTree lower rootOrder (build order snapshots) expanded filter)
        (visits.map (drawn (build order snapshots))) ∧
      (outlineGraph order snapshots).Listing (Kept lower order filterLower snapshots)
        (fun pid => filterLower ≠ [] ∨ pid ∈ expanded) (· < ·)
        (sort ((build order snapshots).roots rootOrder)) 0 visits := by
  classical
  have hroot : ∀ pid ∈ sort ((build order snapshots).roots rootOrder),
      Root (outlineGraph order snapshots).Child pid := fun pid h => by
    rw [outlineGraph_child]
    exact (isRoot_iff.mp (mem_roots.mp ((sort_perm _).mem_iff.mp h))).2
  have hup : ∀ x y, ReflTransGen (outlineGraph order snapshots).Child x y →
      decide (Kept lower order filterLower snapshots y) = true →
      decide (Kept lower order filterLower snapshots x) = true := fun x y hxy hy => by
    rw [outlineGraph_child] at hxy
    obtain ⟨q, hq, hm⟩ := of_decide_eq_true hy
    exact decide_eq_true ⟨q, hxy.trans hq, hm⟩
  have hwalk : ∀ pid ∈ sort ((build order snapshots).roots rootOrder), _ := fun pid h =>
    (outlineGraph order snapshots).depthFirst_listing
      (fun x => sort_ascending (kids_build_nodup order snapshots x))
      (subtreeMatches_settles lower order filterLower) hup
      (fun pid => filterLower ≠ [] || pid ∈ expanded)
      (fun pid depth => drawn (build order snapshots) (pid, depth)) pid (hroot pid h).acyclic 0
  obtain ⟨visitss, hs, hall⟩ := Settles.mapM hwalk
  refine ⟨visitss.flatten, ?_, ?_⟩
  · rw [List.map_flatten]
    subst hlower
    exact hs.bind (.const _)
  · have := ParentGraph.Listing.append (fun x hx y hy => .inl ⟨hroot x hx, hroot y hy⟩)
      (sort_ascending (roots_nodup order rootOrder)) hall
    simpa using this

end Listing

/-- From whichever root a pid is shown, all its ancestors are on the way. -/
theorem shown_iff {order : Visit ProcessSnapshot} {rootOrder : Visit Pid} {keep opens : Pid → Prop}
    {pid : Pid} {n : ℕ} :
    (∃ root ∈ sort ((build order snapshots).roots rootOrder),
      (outlineGraph order snapshots).Shown keep opens root 0 (pid, n)) ↔
      RootedAt snapshots n pid ∧ keep pid ∧ ∀ z, TransGen (ParentOf snapshots) z pid → opens z := by
  simp only [ParentGraph.Shown, outlineGraph_child, Nat.zero_add]
  constructor
  · rintro ⟨root, hmem, m, rfl, hb, hk, ho⟩
    have hroot := mem_roots.mp ((sort_perm _).mem_iff.mp hmem)
    refine ⟨⟨root, hroot, hb⟩, hk, fun z hz => ho z ?_ hz⟩
    exact (isRoot_iff.mp hroot).2.reach_of_reach parentOf_leftUnique hb.reach hz.to_reflTransGen
  · rintro ⟨⟨root, hroot, hb⟩, hk, ho⟩
    exact ⟨root, (sort_perm _).mem_iff.mpr (mem_roots.mpr hroot), n, rfl, hb, hk, fun z _ hz => ho z hz⟩

/-- A pid is kept and open to the walks from the roots exactly when it is to be displayed. -/
theorem displayed_iff {lower : Lowercase} (order : Visit ProcessSnapshot) {expanded : Finset Pid}
    {filter : String} {filterLower : Text} (hlower : filterLower = lower.run (Text.trim filter.toList))
    {pid : Pid} : Displayed lower snapshots expanded filter pid ↔
      (∃ n, RootedAt snapshots n pid) ∧ Kept lower order filterLower snapshots pid ∧
        ∀ z, TransGen (ParentOf snapshots) z pid → filterLower ≠ [] ∨ z ∈ expanded := by
  have hempty : Text.trim filter.toList = [] ↔ filterLower = [] := by
    rw [hlower]
    exact (lower.run_eq_nil _).symm
  rw [Displayed, Kept]
  by_cases hf : filterLower = []
  · have hself : ∃ q, ReflTransGen (ParentOf snapshots) pid q := ⟨pid, .refl⟩
    simp [hempty.mpr hf, hf, hself]
  · rw [if_neg (hempty.not.mpr hf)]
    subst hlower
    simp [hf, selfMatches_iff]

/-- The parent of a displayed pid is displayed. -/
theorem Displayed.parent {lower : Lowercase} {expanded : Finset Pid} {filter : String} {parent pid : Pid}
    (h : Displayed lower snapshots expanded filter pid) (hp : ParentOf snapshots parent pid) :
    Displayed lower snapshots expanded filter parent := by
  obtain ⟨hrooted, hshown⟩ := h
  refine ⟨?_, ?_⟩
  · have hr := (rooted_iff hp.present.2).mpr hrooted
    obtain ⟨root, hroot, hreach⟩ := hr
    exact (rooted_iff hp.present.1).mp
      ⟨root, hroot, hroot.reach_of_reach parentOf_leftUnique hreach (.single hp)⟩
  · by_cases hf : Text.trim filter.toList = []
    · rw [if_pos hf] at hshown ⊢
      exact fun ancestor ha => hshown ancestor (ha.tail hp)
    · rw [if_neg hf] at hshown ⊢
      obtain ⟨q, hq, hm⟩ := hshown
      exact ⟨q, hq.head hp, hm⟩

/-- For every table, expand state and search the walk ends in the outline of what is to be displayed. -/
theorem flatten_tree_outline (lower : Lowercase) (snapshots : List ProcessSnapshot)
    (order : Visit ProcessSnapshot) (rootOrder : Visit Pid) (expanded : Finset Pid) (filter : String) :
    ∃ rows, Settles (flattenTree lower rootOrder (build order snapshots) expanded filter) rows ∧
      Outline snapshots (Displayed lower snapshots expanded filter) rows := by
  obtain ⟨visits, hsettles, hlisting⟩ := flattenTree_settles lower order expanded _ rootOrder filter rfl
  have hpids : (visits.map (drawn (build order snapshots))).map (·.pid) = visits.map Prod.fst := by
    rw [List.map_map]
    rfl
  have hordered : (visits.map Prod.fst).Pairwise (Earlier (ParentOf snapshots) (· < ·)) :=
    (outlineGraph_child order : _ = ParentOf snapshots) ▸ hlisting.ordered
  have hvisit : ∀ pid n, (pid, n) ∈ visits ↔ _ := fun pid n => (hlisting.mem (pid, n)).trans shown_iff
  have hmem : ∀ pid, pid ∈ visits.map Prod.fst ↔ Displayed lower snapshots expanded filter pid := fun pid => by
    rw [displayed_iff order rfl]
    simp only [List.mem_map, Prod.exists, exists_and_right, exists_eq_right, hvisit]
  have hrooted : ∀ pid ∈ visits.map Prod.fst, Rooted (ParentOf snapshots) pid := fun pid h => by
    obtain ⟨⟨n, hn⟩, _⟩ := (hmem pid).mp h
    obtain ⟨root, hroot, hb⟩ := hn
    exact ⟨root, (isRoot_iff.mp hroot).2, hb.reach⟩
  have hirrefl : ∀ x : Pid, ¬ x < x := fun _ => Int32.lt_irrefl
  refine ⟨_, hsettles, ?_, ?_, ?_, ?_, ?_, ?_⟩
  · rw [hpids]
    refine hordered.imp_of_mem fun ha _ h => h.ne parentOf_leftUnique hirrefl (hrooted _ ha)
  · rw [hpids]
    exact hmem
  · intro row hrow
    obtain ⟨⟨pid, n⟩, hv, rfl⟩ := List.mem_map.mp hrow
    exact ((hvisit pid n).mp hv).1
  · intro row hrow
    obtain ⟨⟨pid, n⟩, hv, rfl⟩ := List.mem_map.mp hrow
    simp only [drawn, Bool.not_eq_true', List.isEmpty_eq_false_iff_exists_mem, mem_sortedChildren]
  · intro above row below parent hrows hp
    have hsplit : visits.map Prod.fst = above.map (·.pid) ++ row.pid :: below.map (·.pid) := by
      rw [← hpids, hrows, List.map_append, List.map_cons]
    have hrow : row.pid ∈ visits.map Prod.fst := by simp [hsplit]
    have hparent : parent ∈ visits.map Prod.fst := (hmem parent).mpr (((hmem row.pid).mp hrow).parent hp)
    rw [hsplit, List.mem_append, List.mem_cons] at hparent
    rw [hsplit] at hordered
    rcases hparent with h | rfl | h
    · exact h
    · exact absurd (.single hp) ((hrooted _ hrow).acyclic parentOf_leftUnique .refl)
    · have hlate := List.rel_of_pairwise_cons (List.pairwise_append.mp hordered).2.1 h
      exact absurd hlate (not_earlier_parent parentOf_leftUnique hirrefl (hrooted _ hrow) hp)
  · rw [hpids]
    exact hordered

end ProcessExplorer.Gui
