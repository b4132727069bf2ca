import ProcessExplorer.Model.Tree
import ProcessExplorer.Intelligence.Tracker
import ProcessExplorer.Telemetry.Testing

/-! The read side of ProcessIntelligence, its runs, and the facts every later module starts from: a run tracks every
pid, and so its queries do; its timeline holds the newest 1000 of the events it has appended. -/
namespace ProcessExplorer.Intelligence
open Library Model Telemetry

namespace ProcessIntelligence

def process (s : ProcessIntelligence) (pid : Pid) : Option ProcessSnapshot := s.current.lookup pid

def tree (s : ProcessIntelligence) (order : Visit ProcessSnapshot) : ProcessTree :=
  .build order (s.current.entries.map (·.2))

/-- The key of the live generation, or else any history key with this pid. -/
def historyKey (s : ProcessIntelligence) (order : Visit HistoryKey) (pid : Pid) : Option HistoryKey :=
  ((s.current.lookup pid).map fun snap => (pid, snap.startTime)).or
    ((order.run s.history.keys).find? (·.1 = pid))

def historyOf (s : ProcessIntelligence) (order : Visit HistoryKey) (pid : Pid) : List Sample :=
  ((s.historyKey order pid).bind s.history.lookup).getD []

def timelineOf (s : ProcessIntelligence) (pid : Pid) : List TimelineEvent :=
  s.timeline.filter (·.pid = pid)

def recentTimelineEvents (s : ProcessIntelligence) (since : Int64) : List TimelineEvent :=
  s.timeline.filter (since ≤ ·.observedAt)

/-- The generation is the one the current table holds. -/
def Live (s : ProcessIntelligence) (key : HistoryKey) : Prop :=
  ∃ snap, s.current.lookup key.1 = some snap ∧ snap.startTime = key.2

end ProcessIntelligence

/-- The service as a machine: its inputs are ticks, its outputs timeline events. -/
def service : Machine ProcessIntelligence Tick TimelineEvent where
  step s t := (s.refreshAt t).1
  emit := ProcessIntelligence.appended

/-- The state after a run of refresh_at calls from new. -/
abbrev afterRun (ticks : List Tick) : ProcessIntelligence := service.run .new ticks

/-- Every event appended along the run, the trimmed ones included. -/
abbrev runEvents (ticks : List Tick) : List TimelineEvent := service.trace .new ticks

theorem afterRun_concat (ticks : List Tick) (t : Tick) :
    afterRun (ticks ++ [t]) = ((afterRun ticks).refreshAt t).1 :=
  service.run_append _ ticks [t]

theorem runEvents_concat (ticks : List Tick) (t : Tick) :
    runEvents (ticks ++ [t]) = runEvents ticks ++ (afterRun ticks).appended t := by
  rw [runEvents, Machine.trace_append, Machine.trace_singleton]
  rfl

/-- A pid's view of a whole run. -/
def trackerOf (ticks : List Tick) (pid : Pid) : Tracker :=
  ticks.foldl (fun tr t => tr.step (t.experience pid)) .empty

theorem trackerOf_concat (ticks : List Tick) (t : Tick) (pid : Pid) :
    trackerOf (ticks ++ [t]) pid = (trackerOf ticks pid).step (t.experience pid) := by
  simp [trackerOf]

theorem configured_run (ticks : List Tick) : Configured (afterRun ticks) :=
  service.invariant (A := fun _ => True) configured_new (fun _ t h _ => h.refreshAt t) ticks
    fun _ _ => trivial

/-- The state after any run refines the tracker of every pid. -/
theorem tracks_run (ticks : List Tick) (pid : Pid) :
    Tracks (afterRun ticks) pid (trackerOf ticks pid) := by
  induction ticks using List.reverseRecOn with
  | nil => exact tracks_new pid
  | append_singleton past t ih =>
    rw [afterRun_concat, trackerOf_concat]
    exact ih.refreshAt (configured_run past)

/-- A successful call adds its events to the timeline, and the oldest give way. -/
theorem timeline_of_listed (s : ProcessIntelligence) {t : Tick} {pids : List Pid} (hl : t.adapter.listPids = .ok pids) :
    (s.refreshAt t).1.timeline = (s.timeline ++ s.appended t).rtake s.timelineCapacity := by
  simp only [ProcessIntelligence.refreshAt, ProcessIntelligence.appended, hl]
  exact trimFront_eq_rtake _ _

theorem timeline_refreshAt {s : ProcessIntelligence} (hc : Configured s) (t : Tick) :
    (s.refreshAt t).1.timeline = s.timeline ∧ s.appended t = [] ∨
      (s.refreshAt t).1.timeline = (s.timeline ++ s.appended t).rtake 1000 := by
  cases hl : t.adapter.listPids with
  | error e => exact .inl (by simp [ProcessIntelligence.refreshAt, ProcessIntelligence.appended, hl,
      ProcessIntelligence.drainStale])
  | ok pids =>
    have hcapacity : s.timelineCapacity = 1000 := hc.timeline
    exact .inr (hcapacity ▸ timeline_of_listed s hl)

theorem timeline_run (ticks : List Tick) : (afterRun ticks).timeline = (runEvents ticks).rtake 1000 := by
  induction ticks using List.reverseRecOn with
  | nil => rfl
  | append_singleton past t ih =>
    rw [afterRun_concat, runEvents_concat]
    rcases timeline_refreshAt (configured_run past) t with ⟨h, hnil⟩ | h
    · rw [h, hnil, List.append_nil, ih]
    · rw [h, ih, rtake_rtake_append]

/-- In a reachable state any call does. -/
theorem timeline_appended (past : List Tick) (t : Tick) :
    ((afterRun past).refreshAt t).1.timeline =
      ((afterRun past).timeline ++ (afterRun past).appended t).rtake 1000 := by
  rw [← afterRun_concat, timeline_run, runEvents_concat, timeline_run, rtake_rtake_append]

/-- A call over a mock that holds these processes. -/
def mockTick (now : Int64) (snapshots : List ProcessSnapshot) : Tick :=
  .stored now ((MockTelemetryAdapter.ofList snapshots).adapter .stored)

theorem mockTick_succeeds (now : Int64) (snapshots : List ProcessSnapshot) :
    (mockTick now snapshots).Succeeds := ⟨_, rfl⟩

theorem mockTick_distinct (now : Int64) (snapshots : List ProcessSnapshot) :
    (mockTick now snapshots).Distinct :=
  fun pids => (MockTelemetryAdapter.ofList snapshots).listPids_nodup _ pids

theorem mem_oldKeys_iff_live {s : ProcessIntelligence} {key : HistoryKey} :
    key ∈ s.oldKeys ↔ s.Live key := by
  rw [mem_oldKeys, ProcessIntelligence.Live, Option.map_eq_some_iff]

namespace Tracks
variable {s : ProcessIntelligence} {pid : Pid} {tr : Tracker}

theorem live_iff (h : Tracks s pid tr) (st : UInt64) :
    s.Live (pid, st) ↔ tr.live.map Generation.startTime = some st :=
  mem_oldKeys_iff_live.symm.trans (h.mem_oldKeys st)

theorem mem_history_iff (h : Tracks s pid tr) (st : UInt64) :
    (pid, st) ∈ s.history ↔ (tr.find st).isSome := by
  rw [← AList.lookup_isSome, h.history, Option.isSome_map]

/-- The history query answers from the live generation, or from the one in its
grace tick; the order of the fallback search is not observable. -/
theorem historyOf_eq (h : Tracks s pid tr) (order : Visit HistoryKey) :
    s.historyOf order pid = ((tr.live.or tr.grace).map Generation.log).getD [] := by
  rw [ProcessIntelligence.historyOf, ProcessIntelligence.historyKey]
  rw [h.live]
  cases hl : tr.live with
  | some g =>
    have : tr.find g.startTime = some g := by simp [Tracker.find, Tracker.liveAt, hl, Option.filter]
    simp [h.history, this]
  | none =>
    have hfind (st : UInt64) : tr.find st = tr.grace.filter (·.startTime = st) := by
      simp [Tracker.find, Tracker.liveAt, hl]
    cases hg : tr.grace with
    | none =>
      have hnone : (order.run s.history.keys).find? (·.1 = pid) = none := by
        refine order.find?_run_none _ _ ?_
        rintro ⟨p, st⟩ hk hp
        obtain rfl : p = pid := by simpa using hp
        have := (h.mem_history_iff st).mp hk
        simp [hfind, hg] at this
      simp [hnone]
    | some g =>
      have hg' : tr.find g.startTime = some g := by simp [hfind, hg, Option.filter]
      have hsome : (order.run s.history.keys).find? (·.1 = pid) = some (pid, g.startTime) := by
        refine order.find?_run _ _ _ ?_ (by simp) ?_
        · exact (h.mem_history_iff _).mpr (by simp [hg'])
        · rintro ⟨p, st⟩ hk hp
          obtain rfl : p = pid := by simpa using hp
          have := (h.mem_history_iff st).mp hk
          rw [hfind, hg] at this
          by_cases hst : g.startTime = st
          · rw [hst]
          · simp [Option.filter, hst] at this
      simp [hsome, h.history, hg']

end Tracks
end ProcessExplorer.Intelligence
