import ProcessExplorer.Intelligence.Queries

/-! What a failed call changes. It reports the error of list_pids, but the keys
in their grace tick are already gone by then. -/
namespace ProcessExplorer.Intelligence
open Library Model Telemetry

/-- No query tells the two states apart, whatever its argument. -/
structure SameAnswers (s s' : ProcessIntelligence) : Prop where
  process : ∀ pid, s'.process pid = s.process pid
  history : ∀ order order' pid, s'.historyOf order' pid = s.historyOf order pid
  timeline : ∀ pid, s'.timelineOf pid = s.timelineOf pid
  tree : ∀ order, s'.tree order = s.tree order
  recent : ∀ since, s'.recentTimelineEvents since = s.recentTimelineEvents since

theorem refreshAt_error {s s' : ProcessIntelligence} {t : Tick} {e : TelemetryError}
    (h : s.refreshAt t = (s', .error e)) : t.adapter.listPids = .error e ∧ s' = s.drainStale := by
  rw [ProcessIntelligence.refreshAt] at h
  split at h
  · rename_i e' hl
    obtain ⟨rfl, he⟩ := Prod.mk.inj h
    exact ⟨hl.trans (congrArg _ (Except.error.inj he)), rfl⟩
  · cases (Prod.mk.inj h).2

theorem Generation.log_getD_eq_iff (g : Option Generation) : (g.map log).getD [] = [] ↔ g = none := by
  cases g with
  | none => simp
  | some g => simpa using g.nonempty

/-- The history query of one pid survives the drain unless it answered from the grace tick. -/
theorem Tracks.historyOf_drainStale {s : ProcessIntelligence} {pid : Pid} {tr : Tracker}
    (h : Tracks s pid tr) (order order' : Visit HistoryKey) :
    s.drainStale.historyOf order' pid = s.historyOf order pid ↔ tr.grace = none ∨ tr.live.isSome := by
  rw [h.historyOf_eq, h.drain.historyOf_eq]
  simp only [Tracker.step]
  cases hl : tr.live with
  | some g => simp
  | none =>
    change [] = _ ↔ _
    rw [eq_comm, Option.none_or, Generation.log_getD_eq_iff]
    simp

/-- A failed refresh is invisible to every query exactly when each generation in its
grace tick has left its pid to a successor that is in the table. -/
theorem failed_refresh_invisible_iff (ticks : List Tick) (t : Tick) {s' : ProcessIntelligence}
    {e : TelemetryError}
    (h : (afterRun ticks).refreshAt t = (s', .error e)) :
    SameAnswers (afterRun ticks) s' ↔
      ∀ key ∈ (afterRun ticks).staleKeys, ((afterRun ticks).process key.1).isSome := by
  obtain ⟨-, rfl⟩ := refreshAt_error h
  have hgrace (pid : Pid) : ((trackerOf ticks pid).grace = none ∨ (trackerOf ticks pid).live.isSome) ↔
      ∀ st, (pid, st) ∈ (afterRun ticks).staleKeys → ((afterRun ticks).process pid).isSome := by
    have htr := tracks_run ticks pid
    simp only [htr.stale, ProcessIntelligence.process, htr.live, Option.isSome_map]
    cases (trackerOf ticks pid).grace <;> simp
  constructor
  · rintro hs ⟨pid, st⟩ hk
    have := ((tracks_run ticks pid).historyOf_drainStale .stored .stored).mp (hs.history _ _ pid)
    exact (hgrace pid).mp this st hk
  · intro hk
    constructor
    · exact fun _ => rfl
    · intro order order' pid
      exact ((tracks_run ticks pid).historyOf_drainStale order order').mpr
        ((hgrace pid).mpr fun st => hk (pid, st))
    · exact fun _ => rfl
    · exact fun _ => rfl
    · exact fun _ => rfl

def failedTick (now : Int64) : Tick :=
  .stored now { MockTelemetryAdapter.new.adapter .stored with
    listPids := .error (.io "/proc" (.other 24)) }

theorem failed_refresh_invisible_while_running :
    SameAnswers (afterRun [mockTick 1000 [snap 1 0 100 0 1000]])
      ((afterRun [mockTick 1000 [snap 1 0 100 0 1000]]).refreshAt (failedTick 1005)).1 := by
  apply (failed_refresh_invisible_iff _ (failedTick 1005) rfl).mpr
  have hnone : (afterRun [mockTick 1000 [snap 1 0 100 0 1000]]).staleKeys = [] := by decide
  rw [hnone]
  exact List.forall_mem_nil _

/-- Process 1 exited on the last successful call; the failed one takes its history away. -/
theorem failed_refresh_forgets_exited :
    let s := afterRun [mockTick 1000 [snap 1 0 100 0 1000], mockTick 1005 []]
    (s.refreshAt (failedTick 1010)).2 = .error (.io "/proc" (.other 24)) ∧
      (s.historyOf .stored 1).length = 1 ∧
      ((s.refreshAt (failedTick 1010)).1.historyOf .stored 1).length = 0 ∧
      ¬ SameAnswers s (s.refreshAt (failedTick 1010)).1 := by
  intro s
  have hbefore : (s.historyOf .stored 1).length = 1 := by decide
  have hafter : ((s.refreshAt (failedTick 1010)).1.historyOf .stored 1).length = 0 := by decide
  refine ⟨rfl, hbefore, hafter, fun h => ?_⟩
  rw [h.history .stored .stored 1, hbefore] at hafter
  cases hafter

end ProcessExplorer.Intelligence
