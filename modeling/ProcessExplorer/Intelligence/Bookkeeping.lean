import ProcessExplorer.Intelligence.Queries

/-! The maps of ProcessIntelligence stay in step and stay bounded: no key
outlives its grace tick, and no buffer outgrows its capacity. -/
namespace ProcessExplorer.Intelligence
open Library Model Telemetry

/-- The relation between the tables in every state a call leaves behind. -/
structure Bookkeeping (s : ProcessIntelligence) : Prop where
  history_keys : ∀ key, key ∈ s.history ↔ s.Live key ∨ key ∈ s.staleKeys
  disjoint : ∀ key, ¬ (s.Live key ∧ key ∈ s.staleKeys)
  connection_keys : ∀ key, key ∈ s.connectionsSeen → key ∈ s.history
  history_lengths : ∀ key entries, s.history.lookup key = some entries →
    1 ≤ entries.length ∧ entries.length ≤ 120
  timeline_length : s.timeline.length ≤ 1000
  newest : ∀ pid snap, s.current.lookup pid = some snap →
    ∃ entries time, s.history.lookup (pid, snap.startTime) = some entries ∧
      entries.getLast? = some (time, snap)

theorem Tracker.find_isSome_iff (tr : Tracker) (st : UInt64) :
    (tr.find st).isSome ↔
      tr.live.map Generation.startTime = some st ∨ tr.grace.map Generation.startTime = some st := by
  rw [find, Option.isSome_or, Bool.or_eq_true, liveAt]
  cases tr.live <;> cases tr.grace <;> simp [Option.filter]

theorem timeline_length_le (ticks : List Tick) : (afterRun ticks).timeline.length ≤ 1000 := by
  refine service.invariant (P := fun s => Configured s ∧ s.timeline.length ≤ 1000)
    (A := fun _ => True) ⟨configured_new, by simp [ProcessIntelligence.new]⟩ ?_ ticks
    (fun _ _ => trivial) |>.2
  rintro s t ⟨hc, hl⟩ -
  refine ⟨hc.refreshAt t, ?_⟩
  simp only [service, ProcessIntelligence.refreshAt]
  split
  · exact hl
  · simp only [ProcessIntelligence.commit, ProcessIntelligence.drainStale, hc.timeline,
      trimFront_eq_rtake, length_rtake]
    exact Nat.min_le_left _ _

theorem Generation.log_length (g : Generation) : 1 ≤ g.log.length ∧ g.log.length ≤ 120 :=
  ⟨List.length_pos_iff.mpr g.nonempty, g.bounded⟩

/-- A state in which every pid is tracked has its tables in order. -/
theorem bookkeeping_of_tracks {s : ProcessIntelligence} {tr : Pid → Tracker}
    (h : ∀ pid, Tracks s pid (tr pid)) (hl : s.timeline.length ≤ 1000) : Bookkeeping s where
  history_keys := by
    rintro ⟨pid, st⟩
    rw [(h pid).mem_history_iff, (h pid).live_iff, (h pid).stale, Tracker.find_isSome_iff]
  disjoint := by
    rintro ⟨pid, st⟩ ⟨hlive, hstale⟩
    obtain ⟨g, hg, hgs⟩ := Option.map_eq_some_iff.mp (((h pid).live_iff st).mp hlive)
    obtain ⟨g', hg', hgs'⟩ := Option.map_eq_some_iff.mp (((h pid).stale st).mp hstale)
    exact (tr pid).apart g hg g' hg' (hgs.trans hgs'.symm)
  connection_keys := by
    rintro ⟨pid, st⟩ hk
    rw [← AList.lookup_isSome, (h pid).seen] at hk
    rw [(h pid).mem_history_iff]
    cases hf : (tr pid).find st with
    | none => simp [hf] at hk
    | some g => rfl
  history_lengths := by
    rintro ⟨pid, st⟩ entries he
    rw [(h pid).history] at he
    obtain ⟨g, -, rfl⟩ := Option.map_eq_some_iff.mp he
    exact g.log_length
  timeline_length := hl
  newest := by
    intro pid snap hsnap
    rw [(h pid).live] at hsnap
    obtain ⟨g, hg, rfl⟩ := Option.map_eq_some_iff.mp hsnap
    have hfind : (tr pid).find g.startTime = some g := by
      simp [Tracker.find, Tracker.liveAt, hg, Option.filter]
    refine ⟨g.log, (g.log.getLast g.nonempty).1, ?_, ?_⟩
    · simp [(h pid).history, hfind]
    · rw [List.getLast?_eq_getLast_of_ne_nil g.nonempty]
      rfl

theorem Tracker.find_step_success (tr : Tracker) {r : Reading} (hr : r ≠ .failed) (st : UInt64) :
    ((tr.step r).find st).isSome ↔
      tr.live.map Generation.startTime = some st ∨
        (tr.step r).live.map Generation.startTime = some st := by
  rw [find_isSome_iff]
  cases r with
  | failed => exact absurd rfl hr
  | absent => simp [step]
  | present now read conns again =>
    simp only [step, Option.map_some, observed_startTime]
    cases tr.live with
    | none => simp
    | some g =>
      simp [Option.filter]
      grind

theorem experience_ne_failed {t : Tick} (ht : t.Succeeds) (pid : Pid) : t.experience pid ≠ .failed := by
  obtain ⟨pids, hp⟩ := ht
  simp only [Tick.experience, hp]
  split <;> simp

/-- After every call of every run the tables are in order, and a successful
call leaves history for exactly the generations before it and after it. -/
theorem memory_bounded_without_leaks (past : List Tick) (t : Tick) :
    Bookkeeping (afterRun (past ++ [t])) ∧
      (t.Succeeds → ∀ key, key ∈ (afterRun (past ++ [t])).history ↔
        (afterRun past).Live key ∨ (afterRun (past ++ [t])).Live key) := by
  refine ⟨bookkeeping_of_tracks (tracks_run _) (timeline_length_le _), ?_⟩
  rintro ht ⟨pid, st⟩
  have hpast := tracks_run past pid
  have hnow := tracks_run (past ++ [t]) pid
  rw [hnow.mem_history_iff, hnow.live_iff, hpast.live_iff, trackerOf_concat]
  exact Tracker.find_step_success _ (experience_ne_failed ht pid) st

end ProcessExplorer.Intelligence
