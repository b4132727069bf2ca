import ProcessExplorer.Intelligence.Changes

/-! Which exits are real. The loop takes every failed read for a process that is gone. -/
namespace ProcessExplorer.Intelligence
open Library Model Telemetry

def isNotFound : TelemetryError → Bool
  | .notFound _ => true
  | .io _ .notFound => true
  | _ => false

def isExited : TimelineEventKind → Bool
  | .exited _ => true
  | _ => false

/-- The call has reason to think that a generation is gone. -/
def Tick.SeesGone (t : Tick) (key : HistoryKey) : Prop :=
  (∀ pids, t.adapter.listPids = .ok pids → key.1 ∉ pids) ∨
    (∃ e, t.adapter.process key.1 = .error e ∧ isNotFound e) ∨
    ∃ read, t.adapter.process key.1 = .ok read ∧ read.startTime ≠ key.2

/-- The pid is listed, and it cannot be read for some other reason than being gone. -/
def Tick.Obstructed (t : Tick) (pid : Pid) : Prop :=
  ∃ pids e, t.adapter.listPids = .ok pids ∧ pid ∈ pids ∧ t.adapter.process pid = .error e ∧ isNotFound e = false

/-- No exit of one call is fabricated: each is seen, and a pid that cannot be read for another reason
neither exits nor loses the history of its generation, in this call or at the beginning of the next. -/
structure ExitsAreReal (s : ProcessIntelligence) (t : Tick) : Prop where
  seen : ∀ e ∈ s.appended t, isExited e.kind → t.SeesGone e.key
  spared : ∀ pid, t.Obstructed pid → ∀ e ∈ s.appended t, e.pid = pid → isExited e.kind = false
  kept : ∀ pid, t.Obstructed pid → ∀ st, s.Live (pid, st) →
    (s.refreshAt t).1.history.lookup (pid, st) = s.history.lookup (pid, st) ∧
      (s.refreshAt t).1.drainStale.history.lookup (pid, st) = s.history.lookup (pid, st)

theorem mem_newKeys_iff_observes {s : ProcessIntelligence} {t : Tick} {pids : List Pid}
    (hl : t.adapter.listPids = .ok pids) (key : HistoryKey) :
    key ∈ (s.scan t pids).newKeys ↔ t.observes key := by
  rw [scan_observed_iff, observes_iff]
  simp [hl]

theorem exited_mem_appended_iff {s : ProcessIntelligence} {t : Tick} {e : TimelineEvent} (ht : t.Succeeds) :
    e ∈ s.appended t ∧ isExited e.kind ↔
      ∃ key, s.Live key ∧ t.observes key = false ∧ e = exitedEvent t.now key := by
  obtain ⟨pids, hl⟩ := ht
  have hpending : ∀ e ∈ (s.drainStale.scan t pids).pendingEvents, isExited e.kind = false := by
    apply forall_pendingEvents
    intro p pid _ e he
    obtain ⟨read, -, rfl | ⟨_, rfl⟩ | ⟨snap, -, ⟨_, rfl⟩ | ⟨_, rfl⟩⟩⟩ := mem_iterationEvents he <;> rfl
  have hkeys (key : HistoryKey) : key ∈ s.drainStale.exitedKeys (s.drainStale.scan t pids) ↔
      s.Live key ∧ t.observes key = false := by
    rw [ProcessIntelligence.exitedKeys, List.mem_filter, mem_oldKeys_iff_live, decide_eq_true_iff,
      mem_newKeys_iff_observes hl, Bool.not_eq_true]
    rfl
  simp only [ProcessIntelligence.appended, hl, ProcessIntelligence.passEvents, List.mem_append, List.mem_map,
    Visit.mem_run, hkeys]
  constructor
  · rintro ⟨he | ⟨key, ⟨hlive, hobs⟩, rfl⟩, hkind⟩
    · rw [hpending e he] at hkind
      cases hkind
    · exact ⟨key, hlive, hobs, rfl⟩
  · rintro ⟨key, hlive, hobs, rfl⟩
    exact ⟨.inr ⟨key, ⟨hlive, hobs⟩, rfl⟩, rfl⟩

theorem Tick.Obstructed.not_observes {t : Tick} {pid : Pid} (h : t.Obstructed pid) (st : UInt64) :
    t.observes (pid, st) = false := by
  obtain ⟨pids, e, -, -, he, -⟩ := h
  apply Bool.eq_false_iff.mpr
  intro hobs
  obtain ⟨_, read, -, -, hr, -⟩ := observes_iff.mp hobs
  cases he.symm.trans hr

theorem seesGone_or_obstructed {t : Tick} {key : HistoryKey} (ht : t.Succeeds) (h : t.observes key = false) :
    t.SeesGone key ∨ t.Obstructed key.1 := by
  obtain ⟨pids, hl⟩ := ht
  by_cases hm : key.1 ∈ pids
  · cases hr : t.adapter.process key.1 with
    | ok read =>
      apply Or.inl
      refine .inr (.inr ⟨read, hr, ?_⟩)
      intro hst
      have hobs := observes_iff.mpr ⟨pids, read, hl, hm, hr, hst⟩
      exact Bool.false_ne_true (h.symm.trans hobs)
    | error e =>
      cases he : isNotFound e with
      | true => exact .inl (.inr (.inl ⟨e, hr, he⟩))
      | false => exact .inr ⟨pids, e, hl, hm, hr, he⟩
  · apply Or.inl
    refine .inl fun pids' hl' => ?_
    obtain rfl := Except.ok.inj (hl.symm.trans hl')
    exact hm

/-- In every reachable state a successful call adds its events to the timeline, and the exits among them are real
exactly when no pid of the table is listed and cannot be read for another reason than being gone. -/
theorem exits_are_real_iff (past : List Tick) (t : Tick) (ht : t.Succeeds) :
    ((afterRun past).refreshAt t).1.timeline =
        ((afterRun past).timeline ++ (afterRun past).appended t).rtake 1000 ∧
      (ExitsAreReal (afterRun past) t ↔ ∀ key, (afterRun past).Live key → ¬ t.Obstructed key.1) := by
  refine ⟨timeline_appended past t, ?_⟩
  constructor
  · intro h key hlive hobstructed
    obtain ⟨hm, hkind⟩ := (exited_mem_appended_iff ht).mpr
      ⟨key, hlive, hobstructed.not_observes key.2, rfl⟩
    have hspared := h.spared key.1 hobstructed _ hm rfl
    exact Bool.false_ne_true (hspared.symm.trans hkind)
  · intro h
    have hexit {e : TimelineEvent} (he : e ∈ (afterRun past).appended t) (hkind : isExited e.kind) :
        (afterRun past).Live e.key ∧ t.observes e.key = false := by
      obtain ⟨key, hlive, hobs, rfl⟩ := (exited_mem_appended_iff ht).mp ⟨he, hkind⟩
      exact ⟨hlive, hobs⟩
    constructor
    · intro e he hkind
      obtain ⟨hlive, hobs⟩ := hexit he hkind
      exact (seesGone_or_obstructed ht hobs).resolve_right (h _ hlive)
    · rintro _ hobstructed e he rfl
      apply Bool.eq_false_iff.mpr
      intro hkind
      exact h _ (hexit he hkind).1 hobstructed
    · intro pid hobstructed st hlive
      exact absurd hobstructed (h _ hlive)

theorem exits_are_real_after_exit :
    ExitsAreReal (afterRun [mockTick 1000 [snap 1 0 100 0 1000]]) (mockTick 1005 []) := by
  apply (exits_are_real_iff _ _ (mockTick_succeeds 1005 [])).2.mpr
  rintro key - ⟨pids, e, hl, hm, -⟩
  obtain rfl := Except.ok.inj hl
  cases hm

def deniedTick (now : Int64) : Tick :=
  .stored now { (MockTelemetryAdapter.new.adapter .stored) with
    listPids := .ok [1]
    process := fun _ => .error (.permissionDenied "/proc/1/smaps_rollup") }

/-- Process 1 runs on, but it is reported as exited and its history goes with the next call. -/
theorem denied_read_fabricates_exit :
    let s := afterRun [mockTick 1000 [snap 1 0 100 0 1000]]
    (deniedTick 1005).Succeeds ∧ exitedEvent 1005 (1, 100) ∈ s.appended (deniedTick 1005) ∧
      ¬ (deniedTick 1005).SeesGone (1, 100) ∧
      (s.history.lookup (1, 100)).isSome ∧
      ((s.refreshAt (deniedTick 1005)).1.refreshAt (deniedTick 1010)).1.history.lookup (1, 100) = none ∧
      ¬ ExitsAreReal s (deniedTick 1005) := by
  intro s
  have hexit : exitedEvent 1005 (1, 100) ∈ s.appended (deniedTick 1005) := by decide
  have hgone : ¬ (deniedTick 1005).SeesGone (1, 100) := by
    rintro (h | ⟨e, he, hn⟩ | ⟨read, hr, -⟩)
    · exact h [1] rfl (by simp)
    · cases he
      cases hn
    · cases hr
  exact ⟨⟨[1], rfl⟩, hexit, hgone, rfl, rfl, fun h => hgone (h.seen _ hexit rfl)⟩

end ProcessExplorer.Intelligence
