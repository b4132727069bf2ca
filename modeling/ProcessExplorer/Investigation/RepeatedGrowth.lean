import ProcessExplorer.Intelligence.Changes
import ProcessExplorer.Investigation.GrowthRules

/-! How often growth is reported. refresh_at keeps no note of a report: a generation that stays large is
reported by every call that observes it. -/
namespace ProcessExplorer.Investigation
open Library Model Telemetry Intelligence

/-- The call observes the generation, and its growth over the window is evaluated and reaches the threshold. -/
def OverThreshold (round : ℚ → ℚ) (past : List Tick) (t : Tick) (key : HistoryKey) : Prop :=
  t.observes key ∧ ∃ rss ∈ (t.reading key.1).map (·.memory.rss),
    RefreshReports round t.now (logBefore past key) rss

def growthReports (key : HistoryKey) (events : List TimelineEvent) : Nat :=
  events.countP fun e => e.key = key && isGrowth e.kind

/-- Between two reports of growth a call observes the generation below the threshold. -/
structure ReportedWhenCrossed (ticks : List Tick) (key : HistoryKey) : Prop where
  once : ∀ past t, past ++ [t] <+: ticks → growthReports key ((afterRun past).appended t) ≤ 1
  relieved : ∀ past first between second, past ++ first :: between ++ [second] <+: ticks →
    GrowthReported key ((afterRun past).appended first) →
    GrowthReported key ((afterRun (past ++ first :: between)).appended second) →
    ∃ before relief after, between = before ++ relief :: after ∧ relief.observes key ∧
      ¬ OverThreshold id (past ++ first :: before) relief key

def HasGrown (round : ℚ → ℚ) (past : List Tick) (t : Tick) (key : HistoryKey) : Prop :=
  t.observes key ∧ ∃ rss ∈ (t.reading key.1).map (·.memory.rss),
    ∃ newest ∈ (logBefore past key).reverse.find? (inWindow t.now), GrownByHalf round newest.2 rss

/-- Growth passes at once: a call that finds it lists the pid once, and the next call does not find it. -/
structure GrowthPasses (ticks : List Tick) (key : HistoryKey) : Prop where
  single : ∀ past t, past ++ [t] <+: ticks → HasGrown toDouble past t key → (t.rssReadings key.1).length = 1
  passes : ∀ past first second, past ++ [first, second] <+: ticks → HasGrown toDouble past first key →
    ¬ HasGrown toDouble (past ++ [first]) second key ∧ ¬ HasGrown id (past ++ [first]) second key

def DoublesDecide (ticks : List Tick) (key : HistoryKey) : Prop :=
  ∀ past t, past ++ [t] <+: ticks → (HasGrown toDouble past t key ↔ HasGrown id past t key)

section Threshold
variable {past : List Tick} {t : Tick} {key : HistoryKey}

theorem overThreshold_iff {round : ℚ → ℚ} (hround : Arithmetic round) :
    OverThreshold round past t key ↔ HasGrown round past t key := by
  simp only [OverThreshold, HasGrown, RefreshReports, hround _ _]

theorem growthReported_iff :
    GrowthReported key ((afterRun past).appended t) ↔ HasGrown toDouble past t key := by
  obtain ⟨pid, st⟩ := key
  rw [← overThreshold_iff arithmetic_toDouble, OverThreshold]
  cases hobs : t.observes (pid, st) with
  | true =>
    obtain ⟨-, -, rss, -, hrss, -, hreport⟩ := observing_call (configured_run past) hobs
    rw [hreport, hrss]
    simp [Crosses, RefreshReports, ReachesThreshold, logBefore]
  | false =>
    simp only [Bool.false_eq_true, false_and, iff_false]
    rintro ⟨e, he, hkey, hkind⟩
    rw [ProcessIntelligence.appended] at he
    cases hl : t.adapter.listPids with
    | error source => simp [hl] at he
    | ok pids =>
      rw [hl] at he
      rcases List.mem_append.mp he with he | he
      · have hpending : ∀ e ∈ ((afterRun past).drainStale.scan t pids).pendingEvents,
            e.key = (pid, st) → isGrowth e.kind → t.observes (pid, st) := by
          apply forall_pendingEvents
          intro p pid' hm e he hkey hkind
          obtain ⟨read, hr, rfl | ⟨_, rfl⟩ | ⟨snap, hst, ⟨_, rfl⟩ | ⟨_, rfl⟩⟩⟩ := mem_iterationEvents he
          · cases hkind
          · cases hkind
          · obtain ⟨rfl, rfl⟩ := Prod.mk.inj hkey
            exact observes_iff.mpr ⟨pids, read, hl, hm, hr, hst.symm⟩
          · cases hkind
        rw [hpending e he hkey hkind] at hobs
        cases hobs
      · obtain ⟨_, -, rfl⟩ := List.mem_map.mp he
        cases hkind

theorem not_hasGrown_after_gap {round : ℚ → ℚ} {gap : Tick} (hs : gap.Succeeds)
    (hgap : gap.observes key = false) : ¬ HasGrown round (past ++ [gap]) t key := by
  obtain ⟨pid, st⟩ := key
  have hlive : (trackerOf (past ++ [gap]) pid).liveAt st = none := by
    rw [trackerOf_concat]
    obtain ⟨pids, hl⟩ := hs
    rw [Tick.experience, hl]
    cases hr : gap.reading pid with
    | none => rfl
    | some read =>
      have hne : read.startTime ≠ st := by simpa [Tick.observes, hr] using hgap
      simp [Tracker.step, Tracker.liveAt, Option.filter, hne]
  rintro ⟨-, -, -, newest, hm, -⟩
  rw [logBefore, (tracks_run _ pid).drain_history, hlive] at hm
  cases hm

theorem growthReports_filter_isOwn (pid : Pid) (st : UInt64) (events : List TimelineEvent) :
    growthReports (pid, st) (events.filter (isOwn pid)) = growthReports (pid, st) events := by
  rw [growthReports, growthReports, List.countP_filter]
  apply List.countP_congr
  intro e _
  cases hkind : e.kind <;> simp [isGrowth, isOwn, hkind, isNewChild, TimelineEvent.key]
  tauto

theorem growthReports_eq_zero {events : List TimelineEvent} (h : ∀ e ∈ events, isGrowth e.kind = false) :
    growthReports key events = 0 :=
  List.countP_eq_zero.mpr fun e he => by simp [h e he]

theorem growthReports_ownEvents_le_one {s : ProcessIntelligence} {pid : Pid} {read : ProcessSnapshot}
    {hist : Option (List Sample)} {seen : Option (Finset String)} :
    growthReports key (ownEvents s t pid read hist seen) ≤ 1 := by
  have hgrowth (snap : ProcessSnapshot) : growthReports key (growthEvents t.now pid hist snap) ≤ 1 := by
    apply List.countP_le_length.trans
    rw [length_growthEvents]
    split <;> omega
  have hconnection (snap : ProcessSnapshot) : growthReports key
      (connectionEvents (t.addrOrder pid) t.now pid snap (t.adapter.connections pid) seen) = 0 :=
    growthReports_eq_zero fun e he => by
      obtain ⟨_, rfl⟩ := mem_connectionEvents he
      rfl
  have hstart : growthReports key
      (if previouslyLive s.current pid read then [] else [startedEvent t.now pid read]) = 0 :=
    growthReports_eq_zero fun e he => by
      split at he
      · cases he
      · rw [List.mem_singleton.mp he]
        rfl
  simp only [growthReports] at hgrowth hconnection hstart ⊢
  rw [ownEvents, List.countP_append, List.countP_append, hstart, hconnection, Nat.zero_add, Nat.add_zero]
  exact hgrowth _

theorem growthReports_le_one {s : ProcessIntelligence} (h : (t.rssReadings key.1).length ≤ 1) :
    growthReports key (s.appended t) ≤ 1 := by
  obtain ⟨pid, st⟩ := key
  rw [ProcessIntelligence.appended]
  cases hl : t.adapter.listPids with
  | error source => exact Nat.zero_le 1
  | ok pids =>
    have hexited : growthReports (pid, st) ((t.exitOrder.run
        (s.drainStale.exitedKeys (s.drainStale.scan t pids))).map (exitedEvent t.now)) = 0 :=
      growthReports_eq_zero fun e he => by
        obtain ⟨_, -, rfl⟩ := List.mem_map.mp he
        rfl
    have hpart : growthReports (pid, st) (s.drainStale.passEvents t (s.drainStale.scan t pids)) =
        growthReports (pid, st) ((s.drainStale.scan t pids).part pid).own := by
      rw [ProcessIntelligence.passEvents, growthReports, List.countP_append]
      exact (congrArg₂ (· + ·) (growthReports_filter_isOwn pid st _).symm hexited).trans (Nat.add_zero _)
    dsimp only
    rw [hpart]
    have hunread (hu : (s.drainStale.scan t pids).part pid = s.drainStale.passStart.part pid) :
        growthReports (pid, st) ((s.drainStale.scan t pids).part pid).own ≤ 1 := by
      rw [hu, part_passStart]
      exact Nat.zero_le 1
    cases hr : t.adapter.process pid with
    | error source => exact hunread (scan_part_of_skip fun _ => ⟨source, hr⟩)
    | ok read =>
      rw [Tick.rssReadings, hl, hr, List.length_replicate] at h
      rcases Nat.le_one_iff_eq_zero_or_eq_one.mp h with hcount | hcount
      · exact hunread (scan_part_of_skip fun hm => absurd hm (List.count_eq_zero.mp hcount))
      · have hfold : (s.drainStale.scan t pids).part pid =
            (PidPart.observe s.drainStale t pid)^[pids.count pid] (s.drainStale.passStart.part pid) :=
          (passBody s.drainStale t).part_foldl pid pids _
        rw [hfold, hcount, Function.iterate_one, observe_eq_absorb hr, part_passStart]
        simp only [PidPart.absorb, List.nil_append]
        exact growthReports_ownEvents_le_one

end Threshold

/-- Between a call that does not observe a generation and one that finds growth, the first call to observe it
again is below the threshold. -/
theorem relieved_after_gap {round : ℚ → ℚ} {rest : List Tick} {second : Tick} {key : HistoryKey}
    (hround : Arithmetic round) {past : List Tick} {gap : Tick} (hs : ∀ t ∈ gap :: rest, t.Succeeds)
    (hgap : gap.observes key = false) (hsecond : HasGrown toDouble (past ++ gap :: rest) second key) :
    ∃ before relief after, rest = before ++ relief :: after ∧ relief.observes key ∧
      ¬ OverThreshold round (past ++ gap :: before) relief key := by
  induction rest generalizing past gap with
  | nil => exact absurd hsecond (not_hasGrown_after_gap (hs gap (by simp)) hgap)
  | cons next rest ih =>
    cases hnext : next.observes key with
    | true =>
      refine ⟨[], next, rest, rfl, hnext, ?_⟩
      rw [overThreshold_iff hround]
      exact not_hasGrown_after_gap (hs gap (by simp)) hgap
    | false =>
      rw [List.append_cons] at hsecond
      obtain ⟨before, relief, after, rfl, hobs, hover⟩ :=
        ih (fun t ht => hs t (List.mem_cons_of_mem _ ht)) hnext hsecond
      exact ⟨next :: before, relief, after, rfl, hobs, by rwa [← List.append_cons] at hover⟩

section Run
variable {ticks : List Tick} {key : HistoryKey}

theorem GrowthPasses.once (h : GrowthPasses ticks key) {past : List Tick} {t : Tick}
    (hturns : past ++ [t] <+: ticks) :
    growthReports key ((afterRun past).appended t) ≤ 1 := by
  by_cases hgrown : HasGrown toDouble past t key
  · exact growthReports_le_one (h.single past t hturns hgrown).le
  · rw [← growthReported_iff] at hgrown
    rw [growthReports, List.countP_eq_zero.mpr]
    · exact Nat.zero_le 1
    · intro e he hreport
      have hreport : e.key = key ∧ isGrowth e.kind = true := by simpa using hreport
      exact hgrown ⟨e, he, hreport⟩

theorem GrowthPasses.relieved (h : GrowthPasses ticks key) (hs : ∀ t ∈ ticks, t.Succeeds) {past between : List Tick}
    {first second : Tick} (hturns : past ++ first :: between ++ [second] <+: ticks)
    (hfirst : HasGrown toDouble past first key) (hsecond : HasGrown toDouble (past ++ first :: between) second key) :
    ∃ before relief after, between = before ++ relief :: after ∧ relief.observes key ∧
      ¬ OverThreshold id (past ++ first :: before) relief key := by
  cases between with
  | nil => exact absurd hsecond (h.passes past first second (by simpa using hturns) hfirst).1
  | cons next rest =>
    have hnext : past ++ [first, next] <+: ticks :=
      List.IsPrefix.trans ⟨rest ++ [second], by simp⟩ hturns
    cases hobs : next.observes key with
    | true =>
      refine ⟨[], next, rest, rfl, hobs, ?_⟩
      rw [overThreshold_iff arithmetic_exact]
      exact (h.passes past first next hnext hfirst).2
    | false =>
      have hsub : ∀ t ∈ next :: rest, t.Succeeds := fun t ht =>
        hs t (hturns.subset (by simp at ht ⊢; tauto))
      rw [List.append_cons] at hsecond
      obtain ⟨before, relief, after, rfl, hrelief, hover⟩ :=
        relieved_after_gap arithmetic_exact hsub hobs hsecond
      exact ⟨next :: before, relief, after, rfl, hrelief, by rwa [← List.append_cons] at hover⟩

/-- Two reports in a row leave no room for a reading below the threshold. -/
theorem ReportedWhenCrossed.growthPasses (h : ReportedWhenCrossed ticks key) (hd : ∀ t ∈ ticks, t.Distinct)
    (hdoubles : DoublesDecide ticks key) : GrowthPasses ticks key := by
  constructor
  · intro past t hturns hgrown
    obtain ⟨pids, read, hl, hm, hr, -⟩ := observes_iff.mp hgrown.1
    rw [Tick.rssReadings, hl, hr, List.length_replicate]
    exact List.count_eq_one_of_mem (hd t (hturns.subset (by simp)) pids hl) hm
  · intro past first second hturns hfirst
    have hno : ¬ HasGrown toDouble (past ++ [first]) second key := by
      intro hsecond
      obtain ⟨_, _, _, hnil, -⟩ := h.relieved past first [] second (by simpa using hturns)
        (growthReported_iff.mpr hfirst) (growthReported_iff.mpr hsecond)
      simp at hnil
    refine ⟨hno, ?_⟩
    rwa [← hdoubles (past ++ [first]) second (by simpa using hturns)]

end Run

/-- Each call adds its events to the timeline. In every run of successful calls in which growth passes at once it is
reported among them when it is crossed only; and in no other run, if no pid is listed twice and doubles decide as
exact arithmetic does. -/
theorem growth_reported_when_crossed {ticks : List Tick} (hs : ∀ t ∈ ticks, t.Succeeds) (key : HistoryKey) :
    (∀ past t, past ++ [t] <+: ticks → ((afterRun past).refreshAt t).1.timeline =
        ((afterRun past).timeline ++ (afterRun past).appended t).rtake 1000) ∧
      (GrowthPasses ticks key → ReportedWhenCrossed ticks key) ∧
      ((∀ t ∈ ticks, t.Distinct) → DoublesDecide ticks key →
        (ReportedWhenCrossed ticks key ↔ GrowthPasses ticks key)) := by
  have hsufficient (h : GrowthPasses ticks key) : ReportedWhenCrossed ticks key := by
    constructor
    · intro past t hturns
      exact h.once hturns
    · intro past first between second hturns hfirst hsecond
      exact h.relieved hs hturns (growthReported_iff.mp hfirst) (growthReported_iff.mp hsecond)
  exact ⟨fun past t _ => timeline_appended past t, hsufficient,
    fun hd hdoubles => ⟨fun h => h.growthPasses hd hdoubles, hsufficient⟩⟩

theorem growth_reported_when_crossed_two_calls :
    ReportedWhenCrossed [sizeTick 0 1000, sizeTick 3600 2000] (1, 100) := by
  refine (growth_reported_when_crossed (by simp [sizeTick, mockTick_succeeds]) (1, 100)).2.1 ⟨?_, ?_⟩
  · intro past t hturns _
    have hm := hturns.subset (List.mem_append_right past (List.mem_singleton_self t))
    have hcases : t = sizeTick 0 1000 ∨ t = sizeTick 3600 2000 := by simpa using hm
    rcases hcases with rfl | rfl <;> rfl
  · intro past first second hturns hfirst
    obtain rfl : past = [] := List.length_eq_zero_iff.mp (by simpa using hturns.length_le)
    obtain ⟨-, -, -, newest, hm, -⟩ := hfirst
    cases hm

/-- A process doubles and stays as it is: two reports in five seconds. -/
theorem growth_reported_while_crossed :
    let ticks := [sizeTick 0 1000, sizeTick 3600 2000, sizeTick 3605 2000]
    GrowthReported (1, 100) ((afterRun [sizeTick 0 1000]).appended (sizeTick 3600 2000)) ∧
      GrowthReported (1, 100)
        ((afterRun [sizeTick 0 1000, sizeTick 3600 2000]).appended (sizeTick 3605 2000)) ∧
      ¬ ReportedWhenCrossed ticks (1, 100) := by
  intro ticks
  have hgrown (past : List Tick) (t : Tick) (hobs : t.observes (1, 100))
      (hrss : (t.reading 1).map (·.memory.rss) = some 2000)
      (hnewest : (logBefore past (1, 100)).reverse.find? (inWindow t.now) = some (0, 1000)) :
      GrowthReported (1, 100) ((afterRun past).appended t) := by
    refine growthReported_iff.mpr ⟨hobs, 2000, hrss, (0, 1000), hnewest, by decide, ?_⟩
    rw [toDouble_natCast (by decide), toDouble_natCast (by decide),
      show (1000 : UInt64).toNat = 1000 from rfl, show (2000 : UInt64).toNat = 2000 from rfl]
    norm_num
  have hfirst := hgrown [sizeTick 0 1000] (sizeTick 3600 2000) rfl rfl (by decide)
  have hsecond := hgrown [sizeTick 0 1000, sizeTick 3600 2000] (sizeTick 3605 2000) rfl rfl
    (by decide)
  refine ⟨hfirst, hsecond, ?_⟩
  intro h
  obtain ⟨_, _, _, hnil, -⟩ := h.relieved [sizeTick 0 1000] (sizeTick 3600 2000) [] (sizeTick 3605 2000)
    (List.prefix_refl _) hfirst hsecond
  simp at hnil

end ProcessExplorer.Investigation
