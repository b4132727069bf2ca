import ProcessExplorer.Intelligence.Queries

/-! Two calls that differ only in the order of the listed pids. Everything but
the NewChild events is the same; those look the parent up in the table that is
being built, and so depend on whether the parent was listed first. -/
namespace ProcessExplorer.Intelligence
open Library Model Telemetry

/-- The two calls read the same things at the same time; hash iteration may differ. -/
structure Tick.SameReads (t t' : Tick) : Prop where
  now : t'.now = t.now
  process : t'.adapter.process = t.adapter.process
  connections : t'.adapter.connections = t.adapter.connections

/-- The same maps and keys, and the same multiset of events. -/
structure SameOutcome (s : ProcessIntelligence) (t t' : Tick) : Prop where
  current : ∀ pid, (s.refreshAt t').1.current.lookup pid = (s.refreshAt t).1.current.lookup pid
  history : ∀ key, (s.refreshAt t').1.history.lookup key = (s.refreshAt t).1.history.lookup key
  connections : ∀ key,
    (s.refreshAt t').1.connectionsSeen.lookup key = (s.refreshAt t).1.connectionsSeen.lookup key
  stale : ∀ key, key ∈ (s.refreshAt t').1.staleKeys ↔ key ∈ (s.refreshAt t).1.staleKeys
  events : (s.appended t').Perm (s.appended t)

/-- Two stages of the loop that differ in the order of the pending events only. -/
structure Pass.Alike (p p' : Pass) : Prop where
  history : p'.history = p.history
  connections : p'.connectionsSeen = p.connectionsSeen
  newCurrent : p'.newCurrent = p.newCurrent
  newKeys : p'.newKeys = p.newKeys
  events : p'.pendingEvents.Perm p.pendingEvents

theorem connectionEvents_perm (order order' : Visit String) (now : Int64) (pid : Pid)
    (snap : ProcessSnapshot) (conns : Result (List NetworkConnection)) (seen : Option (Finset String)) :
    (connectionEvents order' now pid snap conns seen).Perm
      (connectionEvents order now pid snap conns seen) := by
  simp only [connectionEvents]
  split
  · exact ((order'.perm _).trans (order.perm _).symm).map _
  · exact .refl _

theorem Pass.Alike.observe {t t' : Tick} (hs : t.SameReads t') (s : ProcessIntelligence)
    {p p' : Pass} (h : p.Alike p') (pid : Pid) :
    (observe s t p pid).Alike (observe s t' p' pid) := by
  simp only [Intelligence.observe]
  rw [hs.process]
  cases t.adapter.process pid with
  | error e => exact h
  | ok read =>
    rw [h.history, h.connections, h.newCurrent, h.newKeys, hs.now, hs.connections]
    exact ⟨rfl, rfl, rfl, rfl, (h.events.append_right _).append_right _ |>.append
      (connectionEvents_perm _ _ _ _ _ _ _)⟩

theorem scan_alike {t t' : Tick} (hs : t.SameReads t') (s : ProcessIntelligence) (pids : List Pid) :
    (s.scan t pids).Alike (s.scan t' pids) := by
  have hfold (p p' : Pass) (h : p.Alike p') :
      (pids.foldl (observe s t) p).Alike (pids.foldl (observe s t') p') := by
    induction pids generalizing p p' with
    | nil => exact h
    | cons pid pids ih => exact ih _ _ (h.observe hs s pid)
  exact hfold _ _ ⟨rfl, rfl, rfl, rfl, .refl _⟩

/-- In any order of the pids the part of every pid is the same. -/
theorem scan_part_perm (s : ProcessIntelligence) (t : Tick) {pids pids' : List Pid}
    (h : pids.Perm pids') (pid : Pid) : (s.scan t pids').part pid = (s.scan t pids).part pid :=
  ((passBody s t).part_foldl_perm pid h _).symm

def isChildOf (child : Pid) (e : TimelineEvent) : Bool := e.kind = .newChild child

/-- The NewChild events that an iteration causes about a child. -/
def childEventsOf (s : ProcessIntelligence) (t : Tick) (newCurrent : HashMap Pid ProcessSnapshot)
    (child : Pid) : List TimelineEvent :=
  match t.adapter.process child with
  | .error _ => []
  | .ok read => childEvents s newCurrent t child read

theorem filter_isChildOf_iterationEvents (s : ProcessIntelligence) (t : Tick) (p : Pass)
    (pid child : Pid) :
    ((iterationEvents s t p pid).filter (isChildOf child)).Perm
      (if pid = child then childEventsOf s t p.newCurrent child else []) := by
  rw [iterationEvents, childEventsOf]
  split_ifs with h
  · subst h
    cases t.adapter.process pid with
    | error e => exact .refl _
    | ok read =>
      apply ((iteration_events_perm s p.newCurrent t pid read _ _).filter _).trans
      rw [List.filter_append, List.filter_eq_nil_iff.mpr, List.nil_append, List.filter_eq_self.mpr]
      · exact fun e he => decide_eq_true (childEvents_isNewChild he)
      · intro e he hc
        have hown := (ownEvents_isOwn he).2
        rw [of_decide_eq_true hc] at hown
        cases hown
  · cases t.adapter.process pid with
    | error e => exact .refl _
    | ok read =>
      apply ((iteration_events_perm s p.newCurrent t pid read _ _).filter _).trans
      rw [List.filter_eq_nil_iff.mpr]
      intro e he hc
      have hk : e.kind = .newChild child := of_decide_eq_true hc
      rcases List.mem_append.mp he with he | he
      · have hown := (ownEvents_isOwn he).2
        rw [hk] at hown
        cases hown
      · rw [childEvents_isNewChild he] at hk
        exact h (TimelineEventKind.newChild.inj hk)

/-- Iterations for other pids cause no NewChild event about a child. -/
theorem filter_isChildOf_foldl {s : ProcessIntelligence} {t : Tick} {child : Pid} {pids : List Pid}
    (h : child ∉ pids) (p : Pass) :
    ((pids.foldl (observe s t) p).pendingEvents.filter (isChildOf child)).Perm
      (p.pendingEvents.filter (isChildOf child)) := by
  induction pids generalizing p with
  | nil => exact .refl _
  | cons pid pids ih =>
    obtain ⟨hne, hrest⟩ := not_or.mp (List.mem_cons.not.mp h)
    apply (ih hrest _).trans
    rw [observe_pendingEvents, List.filter_append]
    apply ((filter_isChildOf_iterationEvents s t p pid child).append_left _).trans
    rw [if_neg (Ne.symm hne), List.append_nil]

/-- The pids of a listing that come before this one. -/
def listedBefore (pids : List Pid) (pid : Pid) : List Pid := pids.takeWhile (· ≠ pid)

theorem exists_split {pids : List Pid} {pid : Pid} (hn : pids.Nodup) (hm : pid ∈ pids) :
    ∃ rest, pids = listedBefore pids pid ++ pid :: rest ∧ pid ∉ rest := by
  obtain ⟨before, rest, rfl⟩ := List.append_of_mem hm
  have hb : pid ∉ before := fun h => (List.nodup_append.mp hn).2.2 pid h pid List.mem_cons_self rfl
  have hbefore : listedBefore (before ++ pid :: rest) pid = before := by
    rw [listedBefore, List.takeWhile_append_of_pos]
    · simp
    · intro x hx
      exact decide_eq_true fun he => hb (he ▸ hx)
  exact ⟨rest, by rw [hbefore], (List.nodup_cons.mp (List.nodup_append.mp hn).2.1).1⟩

/-- The NewChild events about a child are decided by the table at the child's turn. -/
theorem filter_isChildOf_scan {s : ProcessIntelligence} {t : Tick} {child : Pid} {pids : List Pid}
    (hn : pids.Nodup) (hm : child ∈ pids) :
    ((s.scan t pids).pendingEvents.filter (isChildOf child)).Perm
      (childEventsOf s t (s.scan t (listedBefore pids child)).newCurrent child) := by
  obtain ⟨rest, hsplit, hrest⟩ := exists_split hn hm
  have hbefore : child ∉ listedBefore pids child := fun h => by
    simpa using List.mem_takeWhile_imp h
  have hscan : s.scan t pids =
      rest.foldl (observe s t) (observe s t (s.scan t (listedBefore pids child)) child) := by
    conv_lhs => rw [hsplit]
    simp [ProcessIntelligence.scan]
  rw [hscan]
  apply (filter_isChildOf_foldl hrest _).trans
  rw [observe_pendingEvents, List.filter_append]
  have hnone := filter_isChildOf_foldl (s := s) (t := t) hbefore s.passStart
  rw [show s.passStart.pendingEvents = [] from rfl, List.filter_nil] at hnone
  rw [show (s.scan t (listedBefore pids child)).pendingEvents.filter (isChildOf child) = [] from
    hnone.eq_nil, List.nil_append]
  simpa using filter_isChildOf_iterationEvents s t (s.scan t (listedBefore pids child)) child child

theorem filter_isChildOf_scan_of_notMem {s : ProcessIntelligence} {t : Tick} {child : Pid}
    {pids : List Pid} (hm : child ∉ pids) :
    (s.scan t pids).pendingEvents.filter (isChildOf child) = [] :=
  (filter_isChildOf_foldl hm s.passStart).eq_nil

/-- The events of two listings agree exactly when the NewChild events do. -/
theorem scan_events_perm_iff (s : ProcessIntelligence) (t : Tick) {pids pids' : List Pid}
    (hp : pids.Perm pids') (hn : pids.Nodup) :
    (s.scan t pids').pendingEvents.Perm (s.scan t pids).pendingEvents ↔
      ∀ child ∈ pids,
        (childEventsOf s t (s.scan t (listedBefore pids' child)).newCurrent child).Perm
          (childEventsOf s t (s.scan t (listedBefore pids child)).newCurrent child) := by
  have hn' : pids'.Nodup := hp.nodup_iff.mp hn
  constructor
  · intro h child hm
    have hm' : child ∈ pids' := hp.mem_iff.mp hm
    exact ((filter_isChildOf_scan hn' hm').symm.trans (h.filter _)).trans (filter_isChildOf_scan hn hm)
  · intro h
    apply List.perm_iff_count.mpr
    intro e
    cases hk : isNewChild e.kind with
    | false =>
      have hown : isOwn e.pid e = true := by simp [isOwn, hk]
      rw [← List.count_filter hown, ← List.count_filter (l := (s.scan t pids).pendingEvents) hown]
      exact congrArg (List.count e) (congrArg PidPart.own (scan_part_perm s t hp e.pid))
    | true =>
      obtain ⟨child, hchild⟩ : ∃ child, e.kind = .newChild child := by
        cases hkind : e.kind <;> simp [hkind, isNewChild] at hk ⊢
      have hof : isChildOf child e = true := decide_eq_true hchild
      rw [← List.count_filter hof, ← List.count_filter (l := (s.scan t pids).pendingEvents) hof]
      by_cases hm : child ∈ pids
      · have hm' : child ∈ pids' := hp.mem_iff.mp hm
        exact (((filter_isChildOf_scan hn' hm').trans (h child hm)).trans
          (filter_isChildOf_scan hn hm).symm).count_eq e
      · rw [filter_isChildOf_scan_of_notMem hm,
          filter_isChildOf_scan_of_notMem fun hm' => hm (hp.mem_iff.mpr hm')]

/-- The process of this pid is read, and was not in the previous table under its start time. -/
def StartsNow (s : ProcessIntelligence) (t : Tick) (pid : Pid) (read : ProcessSnapshot) : Prop :=
  t.adapter.process pid = .ok read ∧ previouslyLive s.current pid read = false

/-- A parent and a child that both start now are listed in the same relative order. -/
def ParentsKeepPlace (s : ProcessIntelligence) (t : Tick) (pids pids' : List Pid) : Prop :=
  ∀ child ∈ pids, ∀ read, StartsNow s t child read →
    ∀ parent, StartsNow s t read.ppid parent →
      (read.ppid ∈ listedBefore pids' child ↔ read.ppid ∈ listedBefore pids child)

theorem scan_newCurrent_startTime (s : ProcessIntelligence) (t : Tick) {pids : List Pid}
    (hn : pids.Nodup) (pid : Pid) :
    ((s.scan t pids).newCurrent.lookup pid).map (·.startTime) =
      if pid ∈ pids then (t.adapter.process pid).toOption.map (·.startTime) else none := by
  have hlive : (s.scan t pids).newCurrent.lookup pid = ((s.scan t pids).part pid).live := rfl
  rw [hlive]
  cases hr : t.adapter.process pid with
  | error e =>
    rw [scan_part_of_skip fun _ => ⟨e, hr⟩, part_passStart]
    simp [Except.toOption]
  | ok read =>
    split_ifs with hm
    · rw [scan_part_of_read hn hm hr]
      simp [PidPart.absorb, Except.toOption]
    · rw [scan_part_of_skip fun h => absurd h hm, part_passStart]
      rfl

theorem childEvents_perm_iff {s : ProcessIntelligence} {t : Tick} {child : Pid} {read : ProcessSnapshot}
    {new new' : HashMap Pid ProcessSnapshot} :
    (childEvents s new' t child read).Perm (childEvents s new t child read) ↔
      (previouslyLive s.current child read = false →
        parentStartTime s.current new' read.ppid = parentStartTime s.current new read.ppid) := by
  simp only [childEvents]
  cases previouslyLive s.current child read with
  | true => simp
  | false =>
    cases parentStartTime s.current new' read.ppid <;>
      cases parentStartTime s.current new read.ppid <;>
      simp [newChildEvent]

/-- Two lookups that ask one table first agree unless the tables differ and only one asks it. -/
theorem firstOr_eq_iff {old : Option UInt64} {new : UInt64} {asked asked' : Prop} [Decidable asked]
    [Decidable asked'] :
    ((if asked' then some new else none).or old = (if asked then some new else none).or old) ↔
      ((old == some new) = false → (asked' ↔ asked)) := by
  by_cases h : asked <;> by_cases h' : asked' <;> simp only [h, h', if_true, if_false] <;> grind

/-- What the parent lookup returns, read off the listing. -/
theorem parentStartTime_scan (s : ProcessIntelligence) (t : Tick) {pids : List Pid} (hn : pids.Nodup)
    (child ppid : Pid) :
    parentStartTime s.current (s.scan t (listedBefore pids child)).newCurrent ppid =
      (if ppid ∈ listedBefore pids child then (t.adapter.process ppid).toOption.map (·.startTime)
        else none).or ((s.current.lookup ppid).map (·.startTime)) := by
  have hnb : (listedBefore pids child).Nodup := hn.sublist (List.takeWhile_sublist _)
  rw [← scan_newCurrent_startTime s t hnb, parentStartTime]
  cases (s.scan t (listedBefore pids child)).newCurrent.lookup ppid <;> simp

theorem parentsKeepPlace_iff (s : ProcessIntelligence) (t : Tick) {pids pids' : List Pid}
    (hn : pids.Nodup) (hn' : pids'.Nodup) :
    (∀ child ∈ pids,
      (childEventsOf s t (s.scan t (listedBefore pids' child)).newCurrent child).Perm
        (childEventsOf s t (s.scan t (listedBefore pids child)).newCurrent child)) ↔
      ParentsKeepPlace s t pids pids' := by
  apply forall₂_congr
  intro child _
  simp only [childEventsOf, StartsNow]
  cases hr : t.adapter.process child with
  | error e => simp
  | ok read =>
    simp only [childEvents_perm_iff, parentStartTime_scan s t hn, parentStartTime_scan s t hn',
      Except.ok.injEq]
    have key : ((if read.ppid ∈ listedBefore pids' child then
            (t.adapter.process read.ppid).toOption.map (·.startTime) else none).or
          ((s.current.lookup read.ppid).map (·.startTime)) =
        (if read.ppid ∈ listedBefore pids child then
            (t.adapter.process read.ppid).toOption.map (·.startTime) else none).or
          ((s.current.lookup read.ppid).map (·.startTime))) ↔
        ∀ parent, (t.adapter.process read.ppid = .ok parent ∧
            previouslyLive s.current read.ppid parent = false) →
          (read.ppid ∈ listedBefore pids' child ↔ read.ppid ∈ listedBefore pids child) := by
      cases hp : t.adapter.process read.ppid with
      | error e => simp [Except.toOption]
      | ok parent =>
        simp only [Except.toOption, Option.map_some, firstOr_eq_iff, previouslyLive, Except.ok.injEq,
          and_imp, forall_eq']
    rw [key]
    grind

/-- Two calls that read the same and list the same pids add their events to the timeline, and have the same outcome
exactly when no parent that starts together with its child changes sides. -/
theorem listing_order_irrelevant_iff (s : ProcessIntelligence) (t t' : Tick) (hs : t.SameReads t')
    {pids pids' : List Pid} (hl : t.adapter.listPids = .ok pids) (hl' : t'.adapter.listPids = .ok pids')
    (hp : pids.Perm pids') (hn : pids.Nodup) :
    (s.refreshAt t).1.timeline = (s.timeline ++ s.appended t).rtake s.timelineCapacity ∧
      (s.refreshAt t').1.timeline = (s.timeline ++ s.appended t').rtake s.timelineCapacity ∧
      (SameOutcome s t t' ↔ ParentsKeepPlace s t pids pids') := by
  refine ⟨timeline_of_listed s hl, timeline_of_listed s hl', ?_⟩
  have hn' : pids'.Nodup := hp.nodup_iff.mp hn
  have ha := scan_alike hs s.drainStale pids'
  have hpart := scan_part_perm s.drainStale t hp
  have hexited : s.drainStale.exitedKeys (s.drainStale.scan t' pids') =
      s.drainStale.exitedKeys (s.drainStale.scan t pids) := by
    rw [ProcessIntelligence.exitedKeys, ha.newKeys]
    apply List.filter_congr
    intro key _
    have := congrFun (congrArg PidPart.observed (hpart key.1)) key.2
    simpa [Pass.part] using this
  have hexitedPerm := ((t'.exitOrder.perm (s.drainStale.exitedKeys (s.drainStale.scan t pids))).trans
    (t.exitOrder.perm _).symm).map (exitedEvent t.now)
  have hevents : (s.appended t').Perm (s.appended t) ↔ ParentsKeepPlace s t pids pids' := by
    change _ ↔ ParentsKeepPlace s.drainStale t pids pids'
    rw [← parentsKeepPlace_iff s.drainStale t hn hn', ← scan_events_perm_iff s.drainStale t hp hn]
    simp only [ProcessIntelligence.appended, hl, hl', ProcessIntelligence.passEvents, hexited, hs.now]
    constructor
    · intro h
      exact ha.events.symm.trans ((List.perm_append_right_iff _).mp
        (((hexitedPerm.append_left _).symm.trans h)))
    · intro h
      exact (ha.events.trans h).append hexitedPerm
  refine ⟨fun h => hevents.mp h.events, fun h => ⟨?_, ?_, ?_, ?_, hevents.mpr h⟩⟩
  · intro pid
    simp only [ProcessIntelligence.refreshAt, hl, hl', ProcessIntelligence.commit, ha.newCurrent]
    exact congrArg PidPart.live (hpart pid)
  · rintro ⟨pid, st⟩
    simp only [ProcessIntelligence.refreshAt, hl, hl', ProcessIntelligence.commit, ha.history]
    exact congrFun (congrArg PidPart.history (hpart pid)) st
  · rintro ⟨pid, st⟩
    simp only [ProcessIntelligence.refreshAt, hl, hl', ProcessIntelligence.commit, ha.connections]
    exact congrFun (congrArg PidPart.seen (hpart pid)) st
  · intro key
    simp only [ProcessIntelligence.refreshAt, hl, hl', ProcessIntelligence.commit, hexited,
      Visit.mem_run]

/-- One call over the same mock, its table visited in either order. -/
def listingTick (order : Visit Pid) (snapshots : List ProcessSnapshot) : Tick :=
  .stored 1000 ((MockTelemetryAdapter.ofList snapshots).adapter order)

theorem listing_order_irrelevant_siblings :
    SameOutcome .new (listingTick .stored [snap 1 0 100 0 0, snap 2 0 200 0 0])
      (listingTick .reversed [snap 1 0 100 0 0, snap 2 0 200 0 0]) := by
  have hfirst : (listingTick .stored [snap 1 0 100 0 0, snap 2 0 200 0 0]).adapter.listPids =
    .ok [2, 1] := rfl
  have hsecond : (listingTick .reversed [snap 1 0 100 0 0, snap 2 0 200 0 0]).adapter.listPids =
    .ok [1, 2] := rfl
  have hsame : (listingTick .stored [snap 1 0 100 0 0, snap 2 0 200 0 0]).SameReads
    (listingTick .reversed [snap 1 0 100 0 0, snap 2 0 200 0 0]) := ⟨rfl, rfl, rfl⟩
  refine (listing_order_irrelevant_iff .new _ _ hsame hfirst hsecond (.swap 1 2 [])
    (by decide)).2.2.mpr fun child hm read hread parent hparent => ?_
  have hppid : read.ppid = 0 := by
    have hcases : child = 2 ∨ child = 1 := by simpa using (show child ∈ [2, 1] from hm)
    rcases hcases with rfl | rfl <;> rw [← Except.ok.inj hread.1] <;> rfl
  rw [hppid] at hparent
  cases hparent.1

/-- Listed first, the parent is credited with its new child; listed second it is not. -/
theorem listing_order_decides_new_child :
    ¬ SameOutcome .new (listingTick .reversed [snap 1 0 100 0 0, snap 2 1 200 0 0])
      (listingTick .stored [snap 1 0 100 0 0, snap 2 1 200 0 0]) := by
  intro h
  have hlength := h.events.length_eq
  have hfirst : (ProcessIntelligence.new.appended
      (listingTick .reversed [snap 1 0 100 0 0, snap 2 1 200 0 0])).length = 3 := by decide
  have hsecond : (ProcessIntelligence.new.appended
      (listingTick .stored [snap 1 0 100 0 0, snap 2 1 200 0 0])).length = 2 := by decide
  omega

end ProcessExplorer.Intelligence
