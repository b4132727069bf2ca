import ProcessExplorer.Intelligence.MemoryGrowth

/-! How many events a call appends, counted from its readings and the state before it. -/
namespace ProcessExplorer.Intelligence
open Library Model Telemetry

def pushReading (reading : RssReading) (log : List RssReading) : List RssReading :=
  (log ++ [reading]).rtake 120

/-- The parent was read earlier in this call, or is in the table of the last one. -/
def parentKnown (s : ProcessIntelligence) (t : Tick) (before : List Pid) (ppid : Pid) : Bool :=
  (ppid ∈ before && (t.adapter.process ppid).toOption.isSome) || (s.current.lookup ppid).isSome

/-- A second visit finds the addresses of the first. -/
def freshAddrCount (s : ProcessIntelligence) (t : Tick) (before : List Pid) (key : HistoryKey) : Nat :=
  match t.adapter.connections key.1 with
  | .ok conns =>
    if key.1 ∈ before then 0
    else ((remoteAddrs conns).filter (· ∉ (s.connectionsSeen.lookup key).getD ∅)).length
  | .error _ => 0

/-- What the reading of a pid changes, when these pids have been visited before it. -/
def readChanges (s : ProcessIntelligence) (t : Tick) (before : List Pid) (pid : Pid) : Nat :=
  match t.adapter.process pid with
  | .error _ => 0
  | .ok read =>
    let key := (pid, read.startTime)
    let log := (pushReading (t.now, read.memory.rss))^[before.count pid] (rssLog (s.history.lookup key))
    (if previouslyLive s.current pid read then 0 else if parentKnown s t before read.ppid then 2 else 1) +
      (if Crosses t.now log read.memory.rss then 1 else 0) + freshAddrCount s t before key

def listChanges (s : ProcessIntelligence) (t : Tick) : List Pid → List Pid → Nat
  | _, [] => 0
  | before, pid :: rest => readChanges s t before pid + listChanges s t (before ++ [pid]) rest

/-- The changes between the table and the readings of one call, exits included. -/
def changes (s : ProcessIntelligence) (t : Tick) : Nat :=
  match t.adapter.listPids with
  | .error _ => 0
  | .ok pids => listChanges s.drainStale t [] pids + s.oldKeys.countP fun key => !t.observes key

section Stage
variable {s : ProcessIntelligence} {t : Tick}

theorem scan_concat (s : ProcessIntelligence) (t : Tick) (before : List Pid) (pid : Pid) :
    s.scan t (before ++ [pid]) = observe s t (s.scan t before) pid := by
  simp [ProcessIntelligence.scan]

theorem scan_part (s : ProcessIntelligence) (t : Tick) (before : List Pid) (pid : Pid) :
    (s.scan t before).part pid =
      (PidPart.observe s t pid)^[before.count pid] (s.passStart.part pid) :=
  (passBody s t).part_foldl pid before _

theorem scan_newCurrent_isSome (before : List Pid) (pid : Pid) :
    ((s.scan t before).newCurrent.lookup pid).isSome =
      (decide (pid ∈ before) && (t.adapter.process pid).toOption.isSome) := by
  have hlive : (s.scan t before).newCurrent.lookup pid = ((s.scan t before).part pid).live := rfl
  cases hr : t.adapter.process pid with
  | error e => rw [hlive, scan_part_of_skip fun _ => ⟨e, hr⟩, part_passStart]; simp [Except.toOption]
  | ok read =>
    by_cases hm : pid ∈ before
    · obtain ⟨n, hn⟩ := Nat.exists_eq_succ_of_ne_zero (List.count_pos_iff.mpr hm).ne'
      rw [hlive, scan_part, hn, Nat.succ_eq_add_one, Function.iterate_succ_apply', observe_eq_absorb hr]
      simp [PidPart.absorb, hm, Except.toOption]
    · rw [hlive, scan_part_of_skip fun h => absurd h hm, part_passStart]
      simp [hm]

theorem scan_history_rssLog (hc : s.historyCapacity = 120) {pid : Pid} {read : ProcessSnapshot}
    (hr : t.adapter.process pid = .ok read) (before : List Pid) :
    rssLog ((s.scan t before).history.lookup (pid, read.startTime)) =
      (pushReading (t.now, read.memory.rss))^[before.count pid]
        (rssLog (s.history.lookup (pid, read.startTime))) := by
  have hstep (v : PidPart) : rssLog ((v.observe s t pid).history read.startTime) =
      pushReading (t.now, read.memory.rss) (rssLog (v.history read.startTime)) := by
    rw [observe_eq_absorb hr]
    simp [PidPart.absorb, hc, rssLog_pushSample, pushReading]
  have hpart : (s.scan t before).history.lookup (pid, read.startTime) =
      ((s.scan t before).part pid).history read.startTime := rfl
  rw [hpart, scan_part]
  exact (Function.Semiconj.iterate_right (f := fun v : PidPart => rssLog (v.history read.startTime))
    hstep _) _

theorem scan_connectionEvents (pid : Pid) (read snap : ProcessSnapshot)
    (hr : t.adapter.process pid = .ok read) (before : List Pid) :
    (connectionEvents (t.addrOrder pid) t.now pid snap (t.adapter.connections pid)
      ((s.scan t before).connectionsSeen.lookup (pid, read.startTime))).length =
      freshAddrCount s t before (pid, read.startTime) := by
  have hpart : (s.scan t before).connectionsSeen.lookup (pid, read.startTime) =
      ((s.scan t before).part pid).seen read.startTime := rfl
  simp only [connectionEvents, freshAddrCount]
  cases hconns : t.adapter.connections pid with
  | error e => rfl
  | ok conns =>
    simp only [List.length_map, Visit.length_run]
    by_cases hm : pid ∈ before
    · obtain ⟨n, hn⟩ := Nat.exists_eq_succ_of_ne_zero (List.count_pos_iff.mpr hm).ne'
      rw [if_pos hm, hpart, scan_part, hn, Nat.succ_eq_add_one, Function.iterate_succ_apply',
        observe_eq_absorb hr]
      simp [PidPart.absorb, hconns, nextSeen]
    · rw [if_neg hm, hpart, scan_part_of_skip fun h => absurd h hm, part_passStart]

theorem scan_observed_iff (pids : List Pid) (pid : Pid) (st : UInt64) :
    (pid, st) ∈ (s.scan t pids).newKeys ↔
      ∃ read, pid ∈ pids ∧ t.adapter.process pid = .ok read ∧ read.startTime = st := by
  have hpart : (pid, st) ∈ (s.scan t pids).newKeys ↔ ((s.scan t pids).part pid).observed st = true := by
    simp [Pass.part]
  rw [hpart]
  cases hr : t.adapter.process pid with
  | error e => rw [scan_part_of_skip fun _ => ⟨e, hr⟩, part_passStart]; simp
  | ok read =>
    have hstep (v : PidPart) :
        (v.observe s t pid).observed = Function.update v.observed read.startTime true := by
      rw [observe_eq_absorb hr]
      rfl
    rw [scan_part, part_passStart]
    cases hn : pids.count pid with
    | zero => simp [List.count_eq_zero.mp hn]
    | succ n =>
      have hm : pid ∈ pids := List.count_pos_iff.mp (by omega)
      have hobs : ∀ n v, v.observed = (fun _ => false) →
          ((PidPart.observe s t pid)^[n + 1] v).observed =
            Function.update (fun _ => false) read.startTime true := by
        intro n
        induction n with
        | zero => exact fun v hv => by rw [Function.iterate_one, hstep, hv]
        | succ n ih =>
          intro v hv
          rw [Function.iterate_succ_apply', hstep, ih v hv, Function.update_idem]
      rw [hobs n _ rfl]
      simp [Function.update_apply, hm, eq_comm]

end Stage

theorem length_growthEvents (now : Int64) (pid : Pid) (hist : Option (List Sample))
    (snap : ProcessSnapshot) :
    (growthEvents now pid hist snap).length =
      if Crosses now (rssLog hist) snap.memory.rss then 1 else 0 := by
  have hle : (growthEvents now pid hist snap).length ≤ 1 := by
    rw [growthEvents]
    split
    · split <;> simp
    · simp
  split_ifs with hc
  · have := List.length_pos_iff.mpr ((growthEvents_ne_nil_iff now pid hist snap).mpr hc)
    omega
  · exact List.length_eq_zero_iff.mpr
      (not_not.mp fun hne => hc ((growthEvents_ne_nil_iff now pid hist snap).mp hne))

theorem length_startEvents {s : ProcessIntelligence} {t : Tick} (before : List Pid) (pid : Pid)
    (read : ProcessSnapshot) :
    (startEvents s.current (s.scan t before).newCurrent t.now pid read).length =
      if previouslyLive s.current pid read then 0
      else if parentKnown s t before read.ppid then 2 else 1 := by
  have hknown : (parentStartTime s.current (s.scan t before).newCurrent read.ppid).isSome =
      parentKnown s t before read.ppid := by
    rw [parentStartTime, Option.isSome_map, Option.isSome_or, scan_newCurrent_isSome, parentKnown]
  rw [startEvents]
  rw [← hknown]
  split
  · rfl
  · cases parentStartTime s.current (s.scan t before).newCurrent read.ppid <;> rfl

theorem length_iterationEvents {s : ProcessIntelligence} {t : Tick} (hc : s.historyCapacity = 120)
    (before : List Pid) (pid : Pid) :
    (iterationEvents s t (s.scan t before) pid).length = readChanges s t before pid := by
  rw [iterationEvents, readChanges]
  cases hr : t.adapter.process pid with
  | error e => rfl
  | ok read =>
    simp only [List.length_append, length_startEvents, length_growthEvents, rateSnapshot_memory,
      scan_history_rssLog hc hr, scan_connectionEvents pid read _ hr]

theorem length_pendingEvents {s : ProcessIntelligence} {t : Tick} (hc : s.historyCapacity = 120)
    (before pids : List Pid) :
    (s.scan t (before ++ pids)).pendingEvents.length =
      (s.scan t before).pendingEvents.length + listChanges s t before pids := by
  induction pids generalizing before with
  | nil => simp [listChanges]
  | cons pid pids ih =>
    have hsplit : before ++ pid :: pids = before ++ [pid] ++ pids := by simp
    rw [hsplit, ih, scan_concat, observe_pendingEvents, List.length_append,
      length_iterationEvents hc, listChanges, Nat.add_assoc]

/-- Every change is one event, and nothing else is. -/
theorem length_appended {s : ProcessIntelligence} (hc : Configured s) (t : Tick) :
    (s.appended t).length = changes s t := by
  rw [ProcessIntelligence.appended, changes]
  cases hl : t.adapter.listPids with
  | error e => rfl
  | ok pids =>
    have hpending := length_pendingEvents (s := s.drainStale) (t := t) hc.history [] pids
    have hexited : (s.drainStale.exitedKeys (s.drainStale.scan t pids)).length =
        s.oldKeys.countP fun key => !t.observes key := by
      rw [ProcessIntelligence.exitedKeys, ← List.countP_eq_length_filter]
      apply List.countP_congr
      intro key _
      have hobs : t.observes key = true ↔ key ∈ (s.drainStale.scan t pids).newKeys := by
        rw [scan_observed_iff, observes_iff]
        simp [hl]
      simp [← hobs]
    rw [List.nil_append] at hpending
    simp only [ProcessIntelligence.passEvents, List.length_append, List.length_map, Visit.length_run,
      hexited, hpending]
    simp [ProcessIntelligence.scan, ProcessIntelligence.passStart]

end ProcessExplorer.Intelligence
