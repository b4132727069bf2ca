import ProcessExplorer.Daemon.Sherd
import ProcessExplorer.History.Queries
import ProcessExplorer.Intelligence.CpuRate

/-! What the history store answers about the daemon's lives: everything that is not older than the
retention, and nothing that is much older. -/
namespace ProcessExplorer.Daemon
open Library Model Telemetry Intelligence History

/-- One life of the daemon, with the time of its start. -/
structure Life where
  retentionDays : UInt64
  start : Int64
  turns : List Turn

namespace Life

def retention (life : Life) : Int64 := retentionSecs life.retentionDays

def ticks (life : Life) : List Tick := life.turns.map Turn.tick

/-- The calls of the store that succeed. -/
def calls (life : Life) : List HistoryCall := storeCalls life.retention life.start life.turns

/-- The store takes whatever it is given. -/
def Accepted (life : Life) : Prop := ∀ turn ∈ life.turns, ∀ call, turn.answer call = .ok ()

/-- Whatever the clock has said, this time is not older than the retention. -/
def Retains (life : Life) (since : Int64) : Prop :=
  ∀ turn ∈ life.turns, turn.tick.now - life.retention ≤ since

end Life

/-- What each successful refresh has put into the table for a pid, with its time. -/
def sampling (pid : Pid) : Machine ProcessIntelligence Tick Sample where
  step s t := (s.refreshAt t).1
  emit s t := match s.refreshAt t with
    | (_, .error _) => []
    | (s, .ok ()) => ((s.process pid).map fun snap => (t.now, snap)).toList

abbrev samplesOf (pid : Pid) (ticks : List Tick) : List Sample := (sampling pid).trace .new ticks

theorem samplesOf_concat (pid : Pid) (ticks : List Tick) (t : Tick) :
    samplesOf pid (ticks ++ [t]) = samplesOf pid ticks ++ (sampling pid).emit (afterRun ticks) t := by
  rw [samplesOf, Machine.trace_append, Machine.trace_singleton]
  rfl

section Table
variable {s : ProcessIntelligence} {t : Tick}

/-- The rows of the table carry their own pids. -/
def OwnRows (table : HashMap Pid ProcessSnapshot) : Prop :=
  ∀ pid snap, table.lookup pid = some snap → snap.pid = pid

theorem ownRows_observe {p : Pass} {pid : Pid} (h : OwnRows p.newCurrent)
    (hown : ∀ read, t.adapter.process pid = .ok read → read.pid = pid) :
    OwnRows (observe s t p pid).newCurrent := by
  rw [observe]
  split
  · exact h
  · next read hr =>
    intro q snap hq
    rw [HashMap.lookup_insert] at hq
    split at hq
    · subst q
      rw [← Option.some.inj hq, ← hown read hr, rateSnapshot]
      split <;> rfl
    · exact h q snap hq

theorem ownRows_scan {pids : List Pid}
    (hown : ∀ pid ∈ pids, ∀ read, t.adapter.process pid = .ok read → read.pid = pid) :
    OwnRows (s.scan t pids).newCurrent := by
  induction pids using List.reverseRecOn with
  | nil => simp [OwnRows, ProcessIntelligence.scan, ProcessIntelligence.passStart]
  | append_singleton pids pid ih =>
    rw [scan_concat]
    exact ownRows_observe (ih fun p hp => hown p (by simp [hp])) (hown pid (by simp))

theorem ownRows_refreshAt (h : OwnRows s.current) (hown : t.OwnPids) : OwnRows (s.refreshAt t).1.current := by
  rw [ProcessIntelligence.refreshAt]
  cases hl : t.adapter.listPids with
  | error e => exact h
  | ok pids =>
    apply ownRows_scan
    intro pid hm read hr
    apply hown pid
    simp [Tick.reading, hl, hm, hr, Except.toOption]

theorem ownRows_run {ticks : List Tick} (hown : ∀ t ∈ ticks, t.OwnPids) : OwnRows (afterRun ticks).current :=
  service.invariant (P := fun s => OwnRows s.current) (by simp [OwnRows, ProcessIntelligence.new])
    (fun _ _ h ht => ownRows_refreshAt h ht) ticks hown

/-- A list without repetition whose only member is optional. -/
theorem eq_toList {α : Type} {l : List α} {o : Option α} (hl : l.Nodup) (h : ∀ x, x ∈ l ↔ o = some x) :
    l = o.toList := by
  cases o with
  | none => exact List.eq_nil_iff_forall_not_mem.mpr fun x hx => by simpa using (h x).mp hx
  | some a =>
    apply List.perm_singleton.mp
    apply (List.perm_ext_iff_of_nodup hl (List.nodup_singleton a)).mpr
    intro x
    simp [h, eq_comm]

/-- Among the nodes of the tree, in whatever order they come, a pid is where the table has it. -/
theorem filter_nodes (h : OwnRows s.current) (treeOrder nodeOrder : Visit ProcessSnapshot) (pid : Pid) :
    (nodeOrder.run ((s.tree treeOrder).nodes.entries.map (·.2))).filter (·.pid = pid) =
      (s.process pid).toList := by
  have hnodes : (s.tree treeOrder).nodes = ProcessTree.collectNodes (s.current.entries.map (·.2)) := rfl
  have hrow := ProcessTree.lookup_collectNodes_rows h pid
  rw [ProcessTree.lookup_collectNodes] at hrow
  rw [hnodes]
  apply eq_toList
  · apply List.Nodup.filter
    rw [(nodeOrder.perm _).nodup_iff]
    apply List.Nodup.of_map (·.pid)
    rw [ProcessTree.map_pid_rows]
    exact AList.keys_nodup _
  · intro snap
    rw [List.mem_filter, Visit.mem_run, ProcessTree.mem_rows, ProcessIntelligence.process, ← hrow,
      decide_eq_true_iff]
    constructor
    · rintro ⟨hm, rfl⟩
      exact hm
    · intro hm
      obtain rfl := ProcessTree.rowOf_pid hm
      exact ⟨hm, rfl⟩

end Table

section Calls
variable {calls : List HistoryCall} {since : Int64}

theorem cutoffs_append (l r : List HistoryCall) : cutoffs (l ++ r) = cutoffs l ++ cutoffs r :=
  List.filterMap_append

/-- What no prune reaches is kept. -/
theorem keeps_of_recent {time : Int64} (h : ∀ cutoff ∈ cutoffs calls, cutoff ≤ since) (ht : since ≤ time) :
    keeps calls time = true := by
  apply List.all_eq_true.mpr
  intro cutoff hc
  exact decide_eq_true (Int64.not_lt.mpr (Int64.le_trans (h cutoff hc) ht))

/-- The prunes take nothing away that is asked for. -/
theorem filter_survivors {β : Type} {item : HistoryCall → Option β} {time : β → Int64}
    (h : ∀ cutoff ∈ cutoffs calls, cutoff ≤ since) (wanted : β → Bool)
    (hwanted : ∀ x, wanted x = true → since ≤ time x) :
    (survivors item time calls).filter wanted = (calls.filterMap item).filter wanted := by
  induction calls with
  | nil => rfl
  | cons call calls ih =>
    have hlater : ∀ cutoff ∈ cutoffs calls, cutoff ≤ since := fun cutoff hc =>
      h cutoff (by rw [← List.singleton_append, cutoffs_append]; exact List.mem_append_right _ hc)
    have hhead : ((item call).toList.filter fun x => keeps calls (time x)).filter wanted =
        (item call).toList.filter wanted := by
      rw [List.filter_filter]
      apply List.filter_congr
      intro x _
      cases hx : wanted x with
      | false => rfl
      | true => simp [keeps_of_recent hlater (hwanted x hx)]
    rw [survivors, List.filter_append, hhead, ih hlater, List.filterMap_cons]
    cases item call <;> simp [List.filter_cons]
    split <;> rfl

theorem attempt_isPrefix (answer : HistoryCall → Except HistoryError Unit) (calls : List HistoryCall) :
    (attempt answer calls).1 <+: calls := by
  induction calls with
  | nil => exact List.prefix_refl []
  | cons call calls ih =>
    rw [attempt]
    split
    · exact (List.cons_prefix_cons).mpr ⟨rfl, ih⟩
    · exact List.nil_prefix

theorem mem_persistTick {s : ProcessIntelligence} {turn : Turn} {call : HistoryCall}
    (h : call ∈ (persistTick s turn).1) :
    (∃ snapshot, call = .recordSnapshot snapshot turn.tick.now) ∨
      ∃ event, call = .recordEvent event ∧ turn.tick.now ≤ event.observedAt := by
  rcases List.mem_append.mp ((attempt_isPrefix _ _).subset h) with h | h
  · obtain ⟨snapshot, -, rfl⟩ := List.mem_map.mp h
    exact .inl ⟨snapshot, rfl⟩
  · obtain ⟨event, he, rfl⟩ := List.mem_map.mp h
    exact .inr ⟨event, rfl, by simpa using (List.mem_filter.mp he).2⟩

theorem prune_cases {retention lastPrune : Int64} {turn : Turn} {call : HistoryCall}
    (h : call ∈ (prune retention lastPrune turn).2) : call = .pruneOlderThan (turn.tick.now - retention) := by
  rw [prune] at h
  split at h
  · exact List.mem_singleton.mp ((attempt_isPrefix _ _).subset h)
  · cases h

/-- What one turn asks of the store: records of its own time, and at most one prune. -/
theorem mem_turn {retention : Int64} {d : Sherd} {turn : Turn} {call : HistoryCall}
    (h : call ∈ (d.turn retention turn).2) :
    (∃ snapshot, call = .recordSnapshot snapshot turn.tick.now) ∨
      (∃ event, call = .recordEvent event ∧ turn.tick.now ≤ event.observedAt) ∨
      call = .pruneOlderThan (turn.tick.now - retention) := by
  rcases List.mem_append.mp h with h | h
  · rw [sample] at h
    split at h
    · cases h
    · exact (mem_persistTick h).imp_right .inl
  · exact .inr (.inr (prune_cases h))

theorem mem_cutoffs {cutoff : Int64} (h : cutoff ∈ cutoffs calls) : .pruneOlderThan cutoff ∈ calls := by
  obtain ⟨call, hm, hc⟩ := List.mem_filterMap.mp h
  cases call <;> simp_all

end Calls

section Runs
variable (retention start : Int64)

theorem storeCalls_concat (past : List Turn) (turn : Turn) :
    storeCalls retention start (past ++ [turn]) = storeCalls retention start past ++
      (((sherd retention).run ⟨.new, start⟩ past).turn retention turn).2 := by
  rw [storeCalls, Machine.trace_append, Machine.trace_singleton]
  rfl

/-- A daemon prunes only what is older than the retention by its clock. -/
theorem cutoff_of_turn {turns : List Turn} {cutoff : Int64} (h : cutoff ∈ cutoffs (storeCalls retention start turns)) :
    ∃ turn ∈ turns, cutoff = turn.tick.now - retention := by
  induction turns using List.reverseRecOn with
  | nil => cases h
  | append_singleton past turn ih =>
    rw [storeCalls_concat, cutoffs_append] at h
    rcases List.mem_append.mp h with h | h
    · obtain ⟨turn', hm, hcutoff⟩ := ih h
      exact ⟨turn', by simp [hm], hcutoff⟩
    · rcases mem_turn (mem_cutoffs h) with ⟨_, hcall⟩ | ⟨_, hcall, -⟩ | hcall
      · cases hcall
      · cases hcall
      · cases hcall
        exact ⟨turn, by simp, rfl⟩

theorem snapshots_persistTick {s : ProcessIntelligence} {turn : Turn} (hok : ∀ call, turn.answer call = .ok ())
    (hown : OwnRows s.current) (pid : Pid) :
    ((persistTick s turn).1.filterMap snapshotOf).filter (·.2.pid = pid) =
      ((s.process pid).map fun snap => (turn.tick.now, snap)).toList := by
  have hsnapshots (rows : List ProcessSnapshot) :
      (rows.map (HistoryCall.recordSnapshot · turn.tick.now)).filterMap snapshotOf =
        rows.map fun snap => (turn.tick.now, snap) := by
    rw [List.filterMap_map]
    exact congrFun List.filterMap_eq_map rows
  have hevents : ((s.recentTimelineEvents turn.tick.now).map HistoryCall.recordEvent).filterMap snapshotOf = [] :=
    List.filterMap_eq_nil_iff.mpr fun call hc => by
      obtain ⟨event, -, rfl⟩ := List.mem_map.mp hc
      rfl
  rw [persistTick, attempt_of_ok hok, List.filterMap_append, hevents, List.append_nil, hsnapshots, List.filter_map]
  have hrows := filter_nodes hown turn.treeOrder turn.nodeOrder pid
  rw [Function.comp_def]
  simp only [hrows]
  cases s.process pid <;> rfl

/-- What a turn records of a pid is what its refresh has put into the table. -/
theorem snapshots_turn {d : Sherd} {turn : Turn} (hok : ∀ call, turn.answer call = .ok ())
    (hown : OwnRows (d.intel.refreshAt turn.tick).1.current) (pid : Pid) :
    ((d.turn retention turn).2.filterMap snapshotOf).filter (·.2.pid = pid) =
      (sampling pid).emit d.intel turn.tick := by
  have hprune : (prune retention d.lastPrune turn).2.filterMap snapshotOf = [] :=
    List.filterMap_eq_nil_iff.mpr fun call hc => by
      rw [prune_cases hc]
      rfl
  rw [Sherd.turn, List.filterMap_append, hprune, List.append_nil, sample]
  simp only [sampling]
  rcases h : d.intel.refreshAt turn.tick with ⟨s, _ | ⟨⟩⟩
  · rfl
  · rw [h] at hown
    exact snapshots_persistTick hok hown pid

end Runs

namespace Life
variable {life : Life}

theorem snapshots_calls (hok : life.Accepted) (hown : ∀ t ∈ life.ticks, t.OwnPids) (pid : Pid) :
    (life.calls.filterMap snapshotOf).filter (·.2.pid = pid) = samplesOf pid life.ticks := by
  obtain ⟨days, start, turns⟩ := life
  induction turns using List.reverseRecOn with
  | nil => rfl
  | append_singleton past turn ih =>
    have hpast := ih (fun t ht => hok t (List.mem_append_left _ ht)) fun t ht =>
      hown t (by simp only [ticks, List.map_append]; exact List.mem_append_left _ ht)
    simp only [calls, ticks, retention] at hpast hown ⊢
    have hintel := sherd_intel (retentionSecs days) start past
    have hrows := ownRows_run hown
    rw [List.map_append, List.map_singleton] at hrows ⊢
    rw [afterRun_concat] at hrows
    rw [storeCalls_concat, List.filterMap_append, List.filter_append, hpast, samplesOf_concat,
      snapshots_turn _ (hok turn (by simp)) (by rwa [hintel]), hintel]

theorem events_calls (hok : life.Accepted) (hnow : (life.turns.map (·.tick.now)).Pairwise (· < ·))
    (hfits : FitsTimeline life.turns) : life.calls.filterMap eventOf = runEvents life.ticks :=
  (eventsWritten_run life.retention life.start life.turns hnow hok).1 hfits

theorem cutoff_le {since : Int64} (h : life.Retains since) : ∀ cutoff ∈ cutoffs life.calls, cutoff ≤ since := by
  intro cutoff hc
  obtain ⟨turn, hm, rfl⟩ := cutoff_of_turn _ _ hc
  exact h turn hm

end Life

theorem samples_lives {lives : List Life} (hok : ∀ life ∈ lives, life.Accepted)
    (hown : ∀ life ∈ lives, ∀ t ∈ life.ticks, t.OwnPids) (pid : Pid) :
    (lives.flatMap fun life => samplesOf pid life.ticks) =
      ((lives.flatMap Life.calls).filterMap snapshotOf).filter (·.2.pid = pid) := by
  rw [List.filterMap_flatMap, List.filter_flatMap]
  exact List.flatMap_congr fun life hl => (Life.snapshots_calls (hok life hl) (hown life hl) pid).symm

theorem events_lives {lives : List Life} (hok : ∀ life ∈ lives, life.Accepted)
    (hclock : ∀ life ∈ lives, (life.turns.map (·.tick.now)).Pairwise (· < ·) ∧ FitsTimeline life.turns) :
    (lives.flatMap fun life => runEvents life.ticks) = (lives.flatMap Life.calls).filterMap eventOf := by
  rw [List.filterMap_flatMap]
  exact List.flatMap_congr fun life hl =>
    (Life.events_calls (hok life hl) (hclock life hl).1 (hclock life hl).2).symm

/-- The queries lose nothing that is within the retention: over any lives of the daemon, whatever its
clocks say, they list what every refresh has found, and every event of the lives whose clock moves on, with the
floats as they are read back. -/
theorem history_covers_retention (reread : FloatReader) (lives : List Life) (hok : ∀ life ∈ lives, life.Accepted)
    (hown : ∀ life ∈ lives, ∀ t ∈ life.ticks, t.OwnPids) (since : Int64)
    (hsince : ∀ life ∈ lives, life.Retains since) (pid : Pid) :
    let store := HistoryStore.openInMemory.after (lives.flatMap Life.calls)
    (∀ order, Lists Prod.fst
      (((lives.flatMap fun life => samplesOf pid life.ticks).filter (since ≤ ·.1)).map (sampleReadBack reread))
      (store.snapshotsFor reread pid since order)) ∧
    ((∀ life ∈ lives, (life.turns.map (·.tick.now)).Pairwise (· < ·) ∧ FitsTimeline life.turns) →
      ∀ order, Lists TimelineEvent.observedAt
        (((lives.flatMap fun life => runEvents life.ticks).filter fun e => e.pid = pid ∧ since ≤ e.observedAt).map
          (·.readBack reread))
        (store.eventsFor reread pid since order)) := by
  intro store
  have hanswers := answersFrom_after reread (lives.flatMap Life.calls)
  have hcutoffs : ∀ cutoff ∈ cutoffs (lives.flatMap Life.calls), cutoff ≤ since := by
    intro cutoff hc
    obtain ⟨life, hl, hm⟩ := List.mem_flatMap.mp (mem_cutoffs hc)
    exact Life.cutoff_le (hsince life hl) cutoff (List.mem_filterMap.mpr ⟨_, hm, rfl⟩)
  constructor
  · intro order
    have hlists := hanswers.snapshots_for order pid since
    rw [List.filter_map] at hlists
    change Lists _ (((snapshotsKept _).filter fun x => x.2.pid = pid ∧ since ≤ x.1).map _) _ at hlists
    rw [filter_survivors hcutoffs _ fun x hx => (of_decide_eq_true hx).2] at hlists
    rw [samples_lives hok hown, List.filter_filter]
    simpa only [Bool.decide_and, Bool.and_comm] using hlists
  · intro hclock order
    have hlists := hanswers.events_for order pid since
    rw [List.filter_map] at hlists
    change Lists _ (((eventsKept _).filter fun e => e.pid = pid ∧ since ≤ e.observedAt).map _) _ at hlists
    rw [filter_survivors hcutoffs _ fun x hx => (of_decide_eq_true hx).2] at hlists
    rw [events_lives hok hclock]
    exact hlists

theorem processes_ofList (snapshots : List ProcessSnapshot) :
    (MockTelemetryAdapter.ofList snapshots).processes = ProcessTree.collectNodes snapshots := by
  induction snapshots using List.reverseRecOn with
  | nil => rfl
  | append_singleton snapshots snap ih =>
    rw [MockTelemetryAdapter.ofList, ProcessTree.collectNodes, List.foldl_append, List.foldl_append]
    exact congrArg (AList.insert snap.pid snap) ih

/-- The mock stores every process under its own pid. -/
theorem mockTick_ownPids (now : Int64) (snapshots : List ProcessSnapshot) : (mockTick now snapshots).OwnPids := by
  intro pid read hr
  obtain ⟨_, -, -, hprocess⟩ := reading_eq_some_iff.mp hr
  have hrow := (MockTelemetryAdapter.process_eq_ok_iff _ _ _ _).mp hprocess
  rw [processes_ofList, ProcessTree.lookup_collectNodes] at hrow
  exact ProcessTree.rowOf_pid hrow

/-- A daemon that is started again after an hour. -/
theorem history_covers_retention_restarted :
    let first : Life := ⟨7, 1000, [healthyTurn (mockTick 1000 [snap 1 0 100 0 0])]⟩
    let second : Life := ⟨7, 4600, [healthyTurn (mockTick 4600 [snap 1 0 100 0 0])]⟩
    ∀ reread order, Lists Prod.fst
      ([(1000, snap 1 0 100 0 0), (4600, snap 1 0 100 0 0)].map (sampleReadBack reread))
      ((HistoryStore.openInMemory.after ([first, second].flatMap Life.calls)).snapshotsFor reread 1 0 order) := by
  intro first second reread
  exact (history_covers_retention reread [first, second] (by simp [Life.Accepted, first, second, healthyTurn])
    (by simp [Life.ticks, first, second, healthyTurn, mockTick_ownPids]) 0
    (by simp [Life.Retains, first, second, healthyTurn]; decide) 1).1

section Age
variable {store : HistoryStore} {time : ℤ} {retention : Int64}

/-- No row is from before this time. -/
structure RowsFrom (store : HistoryStore) (time : ℤ) : Prop where
  snapshots : ∀ row ∈ store.snapshots, time ≤ row.sampledAt.toInt
  timelineEvents : ∀ row ∈ store.timelineEvents, time ≤ row.observedAt.toInt

theorem RowsFrom.apply {call : HistoryCall} (h : RowsFrom store time)
    (hsnapshot : ∀ x ∈ snapshotOf call, time ≤ x.1.toInt)
    (hevent : ∀ e ∈ eventOf call, time ≤ e.observedAt.toInt) : RowsFrom (store.apply call) time := by
  rw [HistoryStore.apply_eq]
  constructor
  · intro row hrow
    rcases List.mem_append.mp hrow with hrow | hrow
    · exact h.snapshots row (List.mem_of_mem_filter hrow)
    · obtain ⟨x, hx, rfl⟩ := List.mem_map.mp hrow
      exact hsnapshot x (Option.mem_toList.mp hx)
  · intro row hrow
    rcases List.mem_append.mp hrow with hrow | hrow
    · exact h.timelineEvents row (List.mem_of_mem_filter hrow)
    · obtain ⟨e, he, rfl⟩ := List.mem_map.mp hrow
      exact hevent e (Option.mem_toList.mp he)

/-- A turn records nothing from before its own time. -/
theorem RowsFrom.turn {d : Sherd} {turn : Turn} (h : RowsFrom store time) (hnow : time ≤ turn.tick.now.toInt) :
    RowsFrom (store.after (d.turn retention turn).2) time := by
  have hcalls : ∀ call ∈ (d.turn retention turn).2, (∀ x ∈ snapshotOf call, time ≤ x.1.toInt) ∧
      ∀ e ∈ eventOf call, time ≤ e.observedAt.toInt := by
    intro call hc
    rcases mem_turn hc with ⟨snapshot, rfl⟩ | ⟨event, rfl, hevent⟩ | rfl
    · simpa [snapshotOf, eventOf] using hnow
    · simpa [snapshotOf, eventOf] using hnow.trans (Int64.le_iff_toInt_le.mp hevent)
    · simp [snapshotOf, eventOf]
  generalize (d.turn retention turn).2 = calls at hcalls
  induction calls generalizing store with
  | nil => exact h
  | cons call calls ih =>
    have hcall := hcalls call List.mem_cons_self
    exact ih (h.apply hcall.1 hcall.2) fun c hc => hcalls c (List.mem_cons_of_mem _ hc)

/-- A turn that prunes leaves only what is within the retention, whatever was there. -/
theorem rowsFrom_pruned (store : HistoryStore) {d : Sherd} {turn : Turn}
    (hdue : pruneEverySecs ≤ turn.tick.now - d.lastPrune)
    (hprune : ∀ cutoff, turn.answer (.pruneOlderThan cutoff) = .ok ()) :
    RowsFrom (store.after (d.turn retention turn).2) (turn.tick.now - retention).toInt := by
  have hcalls : (prune retention d.lastPrune turn).2 = [.pruneOlderThan (turn.tick.now - retention)] := by
    rw [prune]
    simp [hdue, attempt, hprune]
  rw [Sherd.turn, hcalls, HistoryStore.after_concat, HistoryStore.apply]
  constructor
  · intro row hrow
    have hkept := (List.mem_filter.mp hrow).2
    exact Int64.le_iff_toInt_le.mp (Int64.not_lt.mp (of_decide_eq_true hkept))
  · intro row hrow
    have hkept := (List.mem_filter.mp hrow).2
    exact Int64.le_iff_toInt_le.mp (Int64.not_lt.mp (of_decide_eq_true hkept))

theorem toInt_sub_of_nonneg {a b : Int64} (ha : 0 ≤ a) (hb : 0 ≤ b) : (a - b).toInt = a.toInt - b.toInt := by
  rw [Int64.le_iff_toInt_le] at ha hb
  change 0 ≤ a.toInt at ha
  change 0 ≤ b.toInt at hb
  have := a.toInt_lt
  have := b.toInt_lt
  rw [Int64.toInt_sub, Int.bmod_def]
  omega

theorem retentionSecs_nonneg (days : UInt64) : 0 ≤ retentionSecs days := by
  rw [Int64.le_iff_toInt_le, retentionSecs, Int64.toInt_ofNat_of_lt (by omega)]
  exact Int.natCast_nonneg _

/-- The last prune was at a time the clock has shown, less than an hour ago; from the first prune on
no row is older than the retention was then. -/
structure Swept (store : HistoryStore) (retention start : Int64) (turns : List Turn) (d : Sherd) : Prop where
  lastPrune : d.lastPrune ∈ start :: turns.map (·.tick.now)
  recent : ∀ turn ∈ turns, turn.tick.now.toInt < d.lastPrune.toInt + 3600
  rows : d.lastPrune = start ∨
    RowsFrom (store.after (storeCalls retention start turns)) (d.lastPrune.toInt - retention.toInt)

theorem Swept.concat {start : Int64} {past : List Turn} {turn : Turn}
    (h : Swept store retention start past ((sherd retention).run ⟨.new, start⟩ past))
    (hretention : 0 ≤ retention) (hstart : 0 ≤ start)
    (hclock : (start :: (past ++ [turn]).map (·.tick.now)).Pairwise (· ≤ ·))
    (hprune : ∀ cutoff, turn.answer (.pruneOlderThan cutoff) = .ok ()) :
    Swept store retention start (past ++ [turn]) ((sherd retention).run ⟨.new, start⟩ (past ++ [turn])) := by
  rw [List.map_append, ← List.cons_append, List.pairwise_append] at hclock
  have hlast : ∀ now ∈ start :: past.map (·.tick.now), now ≤ turn.tick.now := fun now hm =>
    hclock.2.2 now hm _ (by simp)
  have hearlier := hlast _ h.lastPrune
  have hnonneg : ∀ now ∈ start :: past.map (·.tick.now), 0 ≤ now := by
    intro now hm
    rcases List.mem_cons.mp hm with rfl | hm
    · exact hstart
    · exact Int64.le_trans hstart ((List.pairwise_cons.mp hclock.1).1 now hm)
  have hnow : 0 ≤ turn.tick.now := Int64.le_trans (hnonneg _ h.lastPrune) hearlier
  have helapsed := toInt_sub_of_nonneg hnow (hnonneg _ h.lastPrune)
  have hafter : store.after (storeCalls retention start (past ++ [turn])) =
      (store.after (storeCalls retention start past)).after
        (((sherd retention).run ⟨.new, start⟩ past).turn retention turn).2 := by
    rw [storeCalls_concat, HistoryStore.after, List.foldl_append]
    rfl
  rw [Machine.run_append]
  generalize (sherd retention).run ⟨.new, start⟩ past = d at *
  change Swept store retention start (past ++ [turn]) (d.turn retention turn).1
  have hd : (d.turn retention turn).1.lastPrune = (prune retention d.lastPrune turn).1 := rfl
  by_cases hdue : pruneEverySecs ≤ turn.tick.now - d.lastPrune
  · have hpruned : (d.turn retention turn).1.lastPrune = turn.tick.now := by
      rw [hd, prune]
      simp [hdue]
    constructor
    · rw [hpruned]
      simp
    · intro t ht
      rw [hpruned]
      rcases List.mem_append.mp ht with ht | ht
      · have := Int64.le_iff_toInt_le.mp (hlast t.tick.now (by simp; exact .inr ⟨t, ht, rfl⟩))
        omega
      · rw [List.mem_singleton.mp ht]
        omega
    · right
      rw [hpruned, hafter, ← toInt_sub_of_nonneg hnow hretention]
      exact rowsFrom_pruned _ hdue hprune
  · have hkept : (d.turn retention turn).1.lastPrune = d.lastPrune := by
      rw [hd, prune]
      simp [hdue]
    have hrecent : turn.tick.now.toInt < d.lastPrune.toInt + 3600 := by
      rw [Int64.le_iff_toInt_le, helapsed] at hdue
      have : pruneEverySecs.toInt = 3600 := rfl
      omega
    constructor
    · rw [hkept, List.map_append, ← List.cons_append]
      exact List.mem_append_left _ h.lastPrune
    · intro t ht
      rw [hkept]
      rcases List.mem_append.mp ht with ht | ht
      · exact h.recent t ht
      · rw [List.mem_singleton.mp ht]
        exact hrecent
    · rw [hkept, hafter]
      refine h.rows.imp_right fun hrows => hrows.turn ?_
      have := Int64.le_iff_toInt_le.mp hearlier
      have : 0 ≤ retention.toInt := Int64.le_iff_toInt_le.mp hretention
      omega

theorem swept_run (store : HistoryStore) {start : Int64} (turns : List Turn) (hretention : 0 ≤ retention)
    (hstart : 0 ≤ start) (hclock : (start :: turns.map (·.tick.now)).Pairwise (· ≤ ·))
    (hprune : ∀ turn ∈ turns, ∀ cutoff, turn.answer (.pruneOlderThan cutoff) = .ok ()) :
    Swept store retention start turns ((sherd retention).run ⟨.new, start⟩ turns) := by
  induction turns using List.reverseRecOn with
  | nil => exact ⟨by simp, by simp, .inl rfl⟩
  | append_singleton past turn ih =>
    have hpast : (start :: past.map (·.tick.now)).Pairwise (· ≤ ·) := by
      rw [List.map_append, ← List.cons_append, List.pairwise_append] at hclock
      exact hclock.1
    exact (ih hpast fun t ht => hprune t (by simp [ht])).concat hretention hstart hclock (hprune turn (by simp))

/-- A daemon that has run for an hour, with a clock that never goes back, leaves no row that is an hour
older than the retention, whatever the database held when it started. -/
theorem rows_within_retention (store : HistoryStore) (life : Life) (hstart : 0 ≤ life.start)
    (hclock : (life.start :: life.turns.map (·.tick.now)).Pairwise (· ≤ ·))
    (hprune : ∀ turn ∈ life.turns, ∀ cutoff, turn.answer (.pruneOlderThan cutoff) = .ok ())
    (turn : Turn) (hturn : turn ∈ life.turns) (hlong : life.start.toInt + 3600 ≤ turn.tick.now.toInt) :
    RowsFrom (store.after life.calls) (turn.tick.now.toInt - life.retention.toInt - 3600 + 1) := by
  have h := swept_run store life.turns (retentionSecs_nonneg life.retentionDays) hstart hclock hprune
  have hrecent := h.recent turn hturn
  have hrows := h.rows.resolve_left fun heq => by
    rw [heq] at hrecent
    omega
  exact ⟨fun row hm => by have := hrows.snapshots row hm; simp only [Life.retention] at *; omega,
    fun row hm => by have := hrows.timelineEvents row hm; simp only [Life.retention] at *; omega⟩

/-- A row from long ago does not outlive the first prune. -/
theorem rows_within_retention_old_row :
    let store : HistoryStore := ⟨[⟨1, 100, 5, "init", .null⟩], []⟩
    let life : Life := ⟨1, 1000, [healthyTurn (mockTick 1000000 [])]⟩
    RowsFrom (store.after life.calls) (1000000 - 86400 - 3600 + 1) :=
  rows_within_retention _ ⟨1, 1000, [healthyTurn (mockTick 1000000 [])]⟩ (by decide) (by decide)
    (by simp [healthyTurn]) _ (List.mem_singleton.mpr rfl) (by decide)

end Age

end ProcessExplorer.Daemon
