import ProcessExplorer.Intelligence.Queries

/-! What one call appends about a pid itself, told by the reading of the pid and its tracker. -/
namespace ProcessExplorer.Intelligence
open Library Model Telemetry

section Reading
variable {t : Tick} {pid : Pid}

theorem reading_eq_some_iff {read : ProcessSnapshot} :
    t.reading pid = some read ↔
      ∃ pids, t.adapter.listPids = .ok pids ∧ pid ∈ pids ∧ t.adapter.process pid = .ok read := by
  rw [Tick.reading]
  cases t.adapter.listPids with
  | error e => simp
  | ok pids => cases t.adapter.process pid <;> simp [Except.toOption]

theorem error_of_no_reading {pids : List Pid} (hl : t.adapter.listPids = .ok pids) (hr : t.reading pid = none)
    (hm : pid ∈ pids) : ∃ e, t.adapter.process pid = .error e := by
  cases hp : t.adapter.process pid with
  | error e => exact ⟨e, rfl⟩
  | ok read =>
    have hread := reading_eq_some_iff.mpr ⟨pids, hl, hm, hp⟩
    cases hr.symm.trans hread

theorem experience_of_reading {read : ProcessSnapshot} (hd : t.Distinct) (h : t.reading pid = some read) :
    t.experience pid = .present t.now read (t.adapter.connections pid) 0 := by
  obtain ⟨pids, hl, hm, -⟩ := reading_eq_some_iff.mp h
  simp only [Tick.experience, hl, h, List.count_eq_one_of_mem (hd pids hl) hm]

theorem experience_of_no_reading (ht : t.Succeeds) (h : t.reading pid = none) : t.experience pid = .absent := by
  obtain ⟨pids, hp⟩ := ht
  simp only [Tick.experience, hp, h]

theorem experience_of_failure (h : ¬ t.Succeeds) (pid : Pid) : t.experience pid = .failed := by
  rw [Tick.experience]
  cases hl : t.adapter.listPids with
  | error e => rfl
  | ok pids => exact absurd ⟨pids, hl⟩ h

end Reading

/-- The addresses that were reported for the generation last. -/
def Tracker.seenAt (tr : Tracker) (st : UInt64) : Option (Finset String) := (tr.liveAt st).bind Generation.seen

section Drained
variable {s : ProcessIntelligence} {pid : Pid} {tr : Tracker}

/-- After the stale keys are gone, the history and the addresses are those of the live generation. -/
theorem Tracks.drain_history (h : Tracks s pid tr) (st : UInt64) :
    s.drainStale.history.lookup (pid, st) = (tr.liveAt st).map Generation.log := by
  rw [h.drain.history, Tracker.find_of_grace_none rfl]
  rfl

theorem Tracks.drain_seen (h : Tracks s pid tr) (st : UInt64) :
    s.drainStale.connectionsSeen.lookup (pid, st) = tr.seenAt st := by
  rw [h.drain.seen, Tracker.find_of_grace_none rfl]
  rfl

end Drained

theorem oldKeys_nodup (s : ProcessIntelligence) : s.oldKeys.Nodup := by
  apply List.Nodup.of_map Prod.fst
  rw [ProcessIntelligence.oldKeys, List.map_map]
  exact AList.keys_nodup s.current

/-- The exit of a generation of the pid, if one is gone. -/
def exitOf (now : Int64) (pid : Pid) (gone : Option Generation) : List TimelineEvent :=
  (gone.map fun g => exitedEvent now (pid, g.startTime)).toList

/-- The exits of a pid are at most one in a call, and so in no particular order. -/
theorem filter_isOwn_exited {pid : Pid} {keys : List HistoryKey} {gone : Option Generation} (hn : keys.Nodup)
    (hkeys : ∀ st, (pid, st) ∈ keys ↔ gone.map Generation.startTime = some st) (order : Visit HistoryKey)
    (now : Int64) :
    ((order.run keys).map (exitedEvent now)).filter (isOwn pid) = exitOf now pid gone := by
  have hevent : isOwn pid ∘ exitedEvent now = fun key => decide (key.1 = pid) := by
    funext key
    exact Bool.and_true _
  have hperm : ((order.run keys).filter fun key => key.1 = pid).Perm
      (gone.map fun g => (pid, g.startTime)).toList := by
    have hnodup := ((order.perm keys).nodup_iff.mpr hn).filter fun key => key.1 = pid
    apply (List.perm_ext_iff_of_nodup hnodup (by cases gone <;> simp)).mpr
    rintro ⟨p, st⟩
    simp only [List.mem_filter, Visit.mem_run, decide_eq_true_iff, Option.mem_toList, Option.map_eq_some_iff,
      Prod.mk.injEq]
    constructor
    · rintro ⟨hm, rfl⟩
      obtain ⟨g, hg, hst⟩ := Option.map_eq_some_iff.mp ((hkeys st).mp hm)
      exact ⟨g, hg, rfl, hst⟩
    · rintro ⟨g, hg, rfl, hst⟩
      exact ⟨(hkeys st).mpr (Option.map_eq_some_iff.mpr ⟨g, hg, hst⟩), rfl⟩
  rw [List.filter_map, hevent, exitOf]
  cases gone with
  | none => rw [hperm.eq_nil]; rfl
  | some g => rw [List.perm_singleton.mp hperm]; rfl

/-- What a call appends about the pid itself: the events of its reading, and the exit of a live generation that
was not read. -/
def Tracker.ownAppended (tr : Tracker) (s : ProcessIntelligence) (t : Tick) (pid : Pid) :
    Reading → List TimelineEvent
  | .failed => []
  | .absent => exitOf t.now pid tr.live
  | .present _ read _ _ =>
    ownEvents s t pid read ((tr.liveAt read.startTime).map Generation.log) (tr.seenAt read.startTime) ++
      exitOf t.now pid (tr.live.filter (·.startTime ≠ read.startTime))

theorem filter_isOwn_appended {s : ProcessIntelligence} {t : Tick} {pid : Pid} {tr : Tracker}
    (h : Tracks s pid tr) (hd : t.Distinct) :
    (s.appended t).filter (isOwn pid) = tr.ownAppended s.drainStale t pid (t.experience pid) := by
  rw [ProcessIntelligence.appended]
  cases hl : t.adapter.listPids with
  | error e => rw [experience_of_failure (by rintro ⟨pids, hl'⟩; cases hl.symm.trans hl')]; rfl
  | ok pids =>
    have hnodup : (s.drainStale.exitedKeys (s.drainStale.scan t pids)).Nodup := (oldKeys_nodup _).filter _
    have hold := h.drain.mem_oldKeys
    have hown : (s.drainStale.scan t pids).pendingEvents.filter (isOwn pid) =
        ((s.drainStale.scan t pids).part pid).own := rfl
    simp only [ProcessIntelligence.passEvents, List.filter_append, hown]
    cases hr : t.reading pid with
    | some read =>
      obtain ⟨_, hl', hm, hread⟩ := reading_eq_some_iff.mp hr
      obtain rfl := Except.ok.inj (hl.symm.trans hl')
      have hgone (st : UInt64) : (pid, st) ∈ s.drainStale.exitedKeys (s.drainStale.scan t pids) ↔
          (tr.live.filter (·.startTime ≠ read.startTime)).map Generation.startTime = some st := by
        rw [mem_exitedKeys, hold, scan_part_of_read (hd pids hl) hm hread, part_passStart]
        simp only [PidPart.absorb, Function.update_apply, Tracker.step, Option.map_eq_some_iff,
          Option.filter_eq_some_iff]
        grind
      rw [filter_isOwn_exited hnodup hgone, scan_part_of_read (hd pids hl) hm hread, part_passStart,
        experience_of_reading hd hr]
      simp only [PidPart.absorb, List.nil_append, h.drain_history, h.drain_seen, Tracker.ownAppended]
    | none =>
      have hskip := error_of_no_reading hl hr
      have hgone (st : UInt64) : (pid, st) ∈ s.drainStale.exitedKeys (s.drainStale.scan t pids) ↔
          tr.live.map Generation.startTime = some st := by
        rw [mem_exitedKeys, hold, scan_part_of_skip hskip, part_passStart, and_iff_left rfl]
        rfl
      rw [filter_isOwn_exited hnodup hgone, scan_part_of_skip hskip, part_passStart,
        experience_of_no_reading ⟨pids, hl⟩ hr]
      rfl

end ProcessExplorer.Intelligence
