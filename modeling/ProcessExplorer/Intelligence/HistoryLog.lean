import ProcessExplorer.Intelligence.OwnEvents

/-! The history query against a reference log that is read off the ticks alone. -/
namespace ProcessExplorer.Intelligence
open Library Model Telemetry

/-- The tick observes exactly this generation. -/
def Tick.observes (key : HistoryKey) (t : Tick) : Bool :=
  (t.reading key.1).map (·.startTime) = some key.2

/-- The observations of a generation on the maximal unbroken suffix of ticks. -/
def unbrokenLog (ticks : List Tick) (key : HistoryKey) : List Sample :=
  (ticks.rtakeWhile (·.observes key)).filterMap fun t => (t.reading key.1).map (t.now, ·)

/-- The last min(120, n) of the n observations. -/
def recentLog (ticks : List Tick) (key : HistoryKey) : List Sample := (unbrokenLog ticks key).rtake 120

/-- What the history of a pid should be after the call t that follows the calls past. -/
def referenceHistory (past : List Tick) (t : Tick) (pid : Pid) : List Sample :=
  match t.reading pid, past.getLast?.bind (·.reading pid) with
  | some read, _ => recentLog (past ++ [t]) (pid, read.startTime)
  | none, some before => recentLog past (pid, before.startTime)
  | none, none => []

def erasePercents (entries : List Sample) : List Sample :=
  entries.map fun entry => (entry.1, entry.2.erasePercent)

/-- A successful call over distinct pids; the pid inside a snapshot is never looked at. -/
def Tick.WellBehaved (t : Tick) : Prop := t.Succeeds ∧ t.Distinct

theorem unbrokenLog_concat_of_observes {ticks : List Tick} {t : Tick} {pid : Pid}
    {read : ProcessSnapshot} (h : t.reading pid = some read) :
    unbrokenLog (ticks ++ [t]) (pid, read.startTime) =
      unbrokenLog ticks (pid, read.startTime) ++ [(t.now, read)] := by
  rw [unbrokenLog, List.rtakeWhile_concat_pos _ _ _ (by simp [Tick.observes, h])]
  simp [unbrokenLog, h]

theorem unbrokenLog_concat_of_not {ticks : List Tick} {t : Tick} {key : HistoryKey}
    (h : t.observes key = false) : unbrokenLog (ticks ++ [t]) key = [] := by
  rw [unbrokenLog, List.rtakeWhile_concat_neg _ _ _ (by simp [h])]
  rfl

theorem erasePercents_append (l r : List Sample) :
    erasePercents (l ++ r) = erasePercents l ++ erasePercents r := List.map_append

theorem erasePercents_rtake (n : Nat) (l : List Sample) :
    erasePercents (l.rtake n) = (erasePercents l).rtake n := map_rtake _ n l

/-- The log a tracker holds for its live generation. -/
def Tracker.liveLog (tr : Tracker) (st : UInt64) : List Sample :=
  ((tr.liveAt st).map Generation.log).getD []

theorem Tracker.liveLog_step_absent (tr : Tracker) (st : UInt64) :
    (tr.step .absent).liveLog st = [] := by
  simp [liveLog, liveAt, step]

theorem Tracker.liveLog_step_present (tr : Tracker) (now : Int64) (read : ProcessSnapshot)
    (conns : Result (List NetworkConnection)) :
    erasePercents ((tr.step (.present now read conns 0)).liveLog read.startTime) =
      (erasePercents (tr.liveLog read.startTime) ++ [(now, read.erasePercent)]).rtake 120 := by
  simp [liveLog, liveAt, step, observed, Generation.extendAgain, Generation.extend, pushSample,
    trimFront_eq_rtake, erasePercents_rtake, erasePercents_append, defaultHistoryCapacity, Option.filter]
  simp [erasePercents]

theorem Tracker.liveLog_step_other (tr : Tracker) (now : Int64) (read : ProcessSnapshot)
    (conns : Result (List NetworkConnection)) {st : UInt64} (h : read.startTime ≠ st) :
    (tr.step (.present now read conns 0)).liveLog st = [] := by
  simp [liveLog, liveAt, step, h, Option.filter]

/-- The tracker's live log is the reference log of every generation of the pid. -/
theorem liveLog_run {ticks : List Tick} (hw : ∀ t ∈ ticks, t.WellBehaved) (pid : Pid) (st : UInt64) :
    erasePercents ((trackerOf ticks pid).liveLog st) = erasePercents (recentLog ticks (pid, st)) := by
  induction ticks using List.reverseRecOn generalizing st with
  | nil => simp [trackerOf, Tracker.empty, Tracker.liveLog, Tracker.liveAt, recentLog, unbrokenLog]
  | append_singleton past t ih =>
    have ih := ih fun x hx => hw x (List.mem_append_left _ hx)
    have ht := hw t (by simp)
    rw [trackerOf_concat]
    cases hr : t.reading pid with
    | none =>
      rw [experience_of_no_reading ht.1 hr, Tracker.liveLog_step_absent, recentLog,
        unbrokenLog_concat_of_not (by simp [Tick.observes, hr]), List.rtake_nil]
    | some read =>
      rw [experience_of_reading ht.2 hr]
      by_cases hst : read.startTime = st
      · subst hst
        rw [Tracker.liveLog_step_present, ih, recentLog, recentLog, unbrokenLog_concat_of_observes hr]
        simp only [erasePercents_rtake, erasePercents_append]
        exact rtake_rtake_append 120 _ _
      · rw [Tracker.liveLog_step_other _ _ _ _ hst, recentLog,
          unbrokenLog_concat_of_not (by simp [Tick.observes, hr, hst]), List.rtake_nil]

/-- Which generation is live is decided by the last tick alone. -/
theorem live_run {ticks : List Tick} (hw : ∀ t ∈ ticks, t.WellBehaved) (pid : Pid) :
    (trackerOf ticks pid).live.map Generation.startTime =
      (ticks.getLast?.bind (·.reading pid)).map (·.startTime) := by
  induction ticks using List.reverseRecOn with
  | nil => rfl
  | append_singleton past t _ =>
    rw [trackerOf_concat, List.getLast?_append, List.getLast?_singleton]
    have ht := hw t (by simp)
    cases hr : t.reading pid with
    | none => simp [experience_of_no_reading ht.1 hr, hr, Tracker.step]
    | some read => simp [experience_of_reading ht.2 hr, hr, Tracker.step]

theorem liveLog_of_live {tr : Tracker} {g : Generation} (h : tr.live = some g) :
    tr.liveLog g.startTime = g.log := by
  simp [Tracker.liveLog, Tracker.liveAt, h, Option.filter]

/-- After every call of a run of successful calls the history query returns the
reference log, and the current table holds what the last call read. -/
theorem history_eq_reference (past : List Tick) (t : Tick)
    (hw : ∀ x ∈ past ++ [t], x.WellBehaved) (order : Visit HistoryKey) (pid : Pid) :
    erasePercents ((afterRun (past ++ [t])).historyOf order pid) =
        erasePercents (referenceHistory past t pid) ∧
      ((afterRun (past ++ [t])).process pid).map ProcessSnapshot.erasePercent =
        (t.reading pid).map ProcessSnapshot.erasePercent := by
  have hpast : ∀ x ∈ past, x.WellBehaved := fun x hx => hw x (List.mem_append_left _ hx)
  have ht := hw t (by simp)
  have htr := tracks_run (past ++ [t]) pid
  rw [htr.historyOf_eq order, ProcessIntelligence.process, htr.live]
  have hlog := liveLog_run hw pid
  rw [trackerOf_concat] at hlog ⊢
  cases hr : t.reading pid with
  | some read =>
    rw [experience_of_reading ht.2 hr] at hlog ⊢
    have hlive : ((trackerOf past pid).step (.present t.now read (t.adapter.connections pid) 0)).live =
      some ((trackerOf past pid).observed t.now read (t.adapter.connections pid) 0) := rfl
    refine ⟨?_, by simp [Tracker.step, Tracker.observed, Generation.extendAgain]⟩
    rw [referenceHistory, hr, ← hlog read.startTime, hlive]
    exact congrArg erasePercents (liveLog_of_live hlive).symm
  | none =>
    have hlive := live_run hpast pid
    rw [experience_of_no_reading ht.1 hr]
    refine ⟨?_, rfl⟩
    simp only [Tracker.step, Option.none_or, referenceHistory, hr]
    cases hb : past.getLast?.bind (·.reading pid) with
    | none =>
      have : (trackerOf past pid).live = none := by simpa [hb] using hlive
      simp [this]
    | some before =>
      obtain ⟨g, hg, hgs⟩ : ∃ g, (trackerOf past pid).live = some g ∧
          g.startTime = before.startTime := by simpa [hb] using hlive
      have hgl := liveLog_run hpast pid g.startTime
      rw [liveLog_of_live hg] at hgl
      simpa [hg, hgs] using hgl

/-- The pid is reused between the two calls: the query holds the second generation only. -/
theorem history_eq_reference_reused_pid :
    let past := [mockTick 1000 [snap 1 0 100 0 1000]]
    let t := mockTick 1001 [snap 1 0 200 5 1000]
    erasePercents ((afterRun (past ++ [t])).historyOf .stored 1) =
        erasePercents (referenceHistory past t 1) ∧
      ((afterRun (past ++ [t])).process 1).map ProcessSnapshot.erasePercent =
        (t.reading 1).map ProcessSnapshot.erasePercent :=
  history_eq_reference _ _
    (by simp [Tick.WellBehaved, mockTick_succeeds, mockTick_distinct]) .stored 1

end ProcessExplorer.Intelligence
