import ProcessExplorer.Intelligence.HistoryLog

/-! Which two readings a CPU rate compares. The newest history entry of a generation that is read is its
reading on the previous call, or there is none. -/
namespace ProcessExplorer.Intelligence
open Library Model Telemetry

/-- How rates are computed: a rounding after each operation, and the seconds between two times. -/
structure RateArithmetic where
  round : ℚ → ℚ
  secsSince : Int64 → Int64 → ℚ

namespace RateArithmetic

/-- Doubles, and a difference of times that wraps at 64 bits. -/
def double : RateArithmetic := ⟨toDouble, fun now prevAt => toDouble (now - prevAt).toInt⟩

def exact : RateArithmetic := ⟨id, fun now prevAt => now.toInt - prevAt.toInt⟩

variable (ar : RateArithmetic)

def cpuPercent (prevTicks currTicks : UInt64) (elapsedSecs : ℚ) : ℚ :=
  if elapsedSecs ≤ 0 then 0
  else
    let deltaTicks := ar.round (currTicks.toNat - prevTicks.toNat : Nat)
    ar.round (ar.round (ar.round (deltaTicks / clkTck) / elapsedSecs) * 100)

def rateSnapshot (now : Int64) (hist : Option (List Sample)) (snap : ProcessSnapshot) : ProcessSnapshot :=
  match hist.bind List.getLast? with
  | some (prevAt, prevSnap) =>
    snap.withPercent (ar.cpuPercent prevSnap.cpu.totalTicks snap.cpu.totalTicks (ar.secsSince now prevAt))
  | none => snap

/-- The rate since a previous reading; without one, what the adapter reported. -/
def ratePercent (now : Int64) (previous : Option Sample) (read : ProcessSnapshot) : ℚ :=
  match previous with
  | some (prevAt, prev) => ar.cpuPercent prev.cpu.totalTicks read.cpu.totalTicks (ar.secsSince now prevAt)
  | none => read.cpu.percent

theorem rateSnapshot_double : double.rateSnapshot = Intelligence.rateSnapshot := rfl

end RateArithmetic

/-- The rate without any rounding. -/
def exactPercent (now : Int64) (previous : Option Sample) (read : ProcessSnapshot) : ℚ :=
  match previous with
  | some (prevAt, prev) =>
    if now ≤ prevAt then 0
    else max 0 ((read.cpu.totalTicks.toNat : ℚ) - prev.cpu.totalTicks.toNat) / 100 /
      (now.toInt - prevAt.toInt) * 100
  | none => read.cpu.percent

/-- The reading of this generation on the previous call, if that call observed it. -/
def previousReading (past : List Tick) (key : HistoryKey) : Option Sample :=
  past.getLast?.bind fun u => ((u.reading key.1).filter (·.startTime = key.2)).map (u.now, ·)

theorem ratePercent_exact (now : Int64) (previous : Option Sample) (read : ProcessSnapshot) :
    RateArithmetic.exact.ratePercent now previous read = exactPercent now previous read := by
  cases previous with
  | none => rfl
  | some prior =>
    obtain ⟨prevAt, prev⟩ := prior
    have helapsed : ((now.toInt : ℚ) - prevAt.toInt ≤ 0) ↔ now ≤ prevAt := by
      rw [sub_nonpos, Int64.le_iff_toInt_le]
      exact_mod_cast Iff.rfl
    have hdelta (a b : ℕ) : ((a - b : ℕ) : ℚ) = max 0 ((a : ℚ) - b) := by
      rcases Nat.le_total a b with h | h
      · rw [Nat.sub_eq_zero_of_le h, max_eq_left (sub_nonpos.mpr (by exact_mod_cast h)), Nat.cast_zero]
      · rw [Nat.cast_sub h, max_eq_right (sub_nonneg.mpr (by exact_mod_cast h))]
    simp only [RateArithmetic.ratePercent, RateArithmetic.cpuPercent, RateArithmetic.exact, exactPercent, id,
      helapsed, hdelta, clkTck]

/-- A rate depends on nothing of a previous reading that the loop of refresh_at computes. -/
theorem ratePercent_erasePercent (ar : RateArithmetic) (now : Int64) (previous : Option Sample)
    (read : ProcessSnapshot) :
    ar.ratePercent now (previous.map fun entry => (entry.1, entry.2.erasePercent)) read =
      ar.ratePercent now previous read := by
  cases previous <;> rfl

theorem rateSnapshot_percent (ar : RateArithmetic) (now : Int64) (hist : Option (List Sample))
    (snap : ProcessSnapshot) :
    (ar.rateSnapshot now hist snap).cpu.percent = ar.ratePercent now (hist.bind List.getLast?) snap := by
  rw [RateArithmetic.rateSnapshot, RateArithmetic.ratePercent.eq_def]
  cases hist.bind List.getLast? <;> rfl

/-- The newest of the unbroken observations is that of the last call. -/
theorem getLast?_recentLog (ticks : List Tick) (key : HistoryKey) :
    (recentLog ticks key).getLast? = previousReading ticks key := by
  rw [recentLog, getLast?_rtake (by decide), previousReading]
  induction ticks using List.reverseRecOn with
  | nil => rfl
  | append_singleton past t _ =>
    obtain ⟨pid, st⟩ := key
    rw [List.getLast?_concat, Option.bind_some]
    cases hr : t.reading pid with
    | none => rw [unbrokenLog_concat_of_not (by simp [Tick.observes, hr])]; rfl
    | some read =>
      by_cases hst : read.startTime = st
      · subst hst
        rw [unbrokenLog_concat_of_observes hr, List.getLast?_concat]
        simp
      · rw [unbrokenLog_concat_of_not (by simp [Tick.observes, hr, hst])]
        simp [hst]

/-- A call finds the previous reading of a generation at the end of its history, or no history. -/
theorem newest_of_history {past : List Tick} (hw : ∀ u ∈ past, u.WellBehaved) (pid : Pid) (st : UInt64) :
    (((afterRun past).drainStale.history.lookup (pid, st)).bind List.getLast?).map
        (fun entry => (entry.1, entry.2.erasePercent)) =
      (previousReading past (pid, st)).map fun entry => (entry.1, entry.2.erasePercent) := by
  have hlog := congrArg List.getLast? (liveLog_run hw pid st)
  rw [erasePercents, erasePercents, List.getLast?_map, List.getLast?_map, getLast?_recentLog] at hlog
  rw [← hlog, (tracks_run past pid).drain_history, Tracker.liveLog]
  cases (trackerOf past pid).liveAt st <;> rfl

theorem ratePercent_nonneg {ar : RateArithmetic} (hround : ∀ q, 0 ≤ q → 0 ≤ ar.round q) {now : Int64}
    {previous : Option Sample} {read : ProcessSnapshot} (hread : 0 ≤ read.cpu.percent) :
    0 ≤ ar.ratePercent now previous read := by
  cases previous with
  | none => exact hread
  | some prior =>
    rw [RateArithmetic.ratePercent, RateArithmetic.cpuPercent]
    split
    · exact le_refl _
    · rename_i hpos
      have hticks := hround _ (Nat.cast_nonneg (read.cpu.totalTicks.toNat - prior.2.cpu.totalTicks.toNat))
      have hsecs := hround _ (div_nonneg hticks (by decide : (0 : ℚ) ≤ clkTck))
      have hrate := hround _ (div_nonneg hsecs (not_le.mp hpos).le)
      exact hround _ (mul_nonneg hrate (by norm_num))

theorem toDouble_nonneg {q : ℚ} (h : 0 ≤ q) : 0 ≤ toDouble q := by
  rcases h.eq_or_lt with rfl | hpos
  · rw [toDouble_zero]
  · exact (toDouble_pos hpos).le

/-- The adapter answers about the process that it was asked for. -/
def Tick.OwnPids (t : Tick) : Prop := ∀ pid read, t.reading pid = some read → read.pid = pid

/-- What is stored for a process that a call reads: its percent is that of the reading and of the previous
reading of the same generation, and every query shows it. -/
structure Rated (past : List Tick) (t : Tick) (pid : Pid) (read stored : ProcessSnapshot) : Prop where
  sameStart : stored.startTime = read.startTime
  rate : stored = RateArithmetic.double.rateSnapshot t.now
    ((afterRun past).drainStale.history.lookup (pid, read.startTime)) read
  percent : ∀ ar : RateArithmetic, (ar.rateSnapshot t.now
      ((afterRun past).drainStale.history.lookup (pid, read.startTime)) read).cpu.percent =
    ar.ratePercent t.now (previousReading past (pid, read.startTime)) read
  exact : RateArithmetic.exact.ratePercent t.now (previousReading past (pid, read.startTime)) read =
    exactPercent t.now (previousReading past (pid, read.startTime)) read
  nonneg : read.cpu.percent = 0 → 0 ≤ stored.cpu.percent ∧
    0 ≤ exactPercent t.now (previousReading past (pid, read.startTime)) read
  newest : ∀ order, ((afterRun (past ++ [t])).historyOf order pid).getLast? = some (t.now, stored)
  tree : t.OwnPids → ∀ order, ((afterRun (past ++ [t])).tree order).nodes.lookup pid = some stored

/-- What a call stores for a pid is its reading, with the rate since the history that the call found. -/
theorem lookup_current_run (past : List Tick) {t : Tick} (ht : t.WellBehaved) (pid : Pid) :
    (afterRun (past ++ [t])).current.lookup pid = (t.reading pid).map fun read => rateSnapshot t.now
      ((afterRun past).drainStale.history.lookup (pid, read.startTime)) read := by
  rw [(tracks_run (past ++ [t]) pid).live, trackerOf_concat]
  cases hr : t.reading pid with
  | none => simp [experience_of_no_reading ht.1 hr, Tracker.step]
  | some read =>
    rw [experience_of_reading ht.2 hr, Option.map_some, (tracks_run past pid).drain_history]
    exact congrArg some (Generation.extend_newest _ _ _ _ fun _ => Tracker.liveAt_startTime)

/-- In every run of successful calls the percent of a live generation compares two readings of it, made by
this call and the one before, and is what the adapter reported where there was no such reading before. -/
theorem cpu_rates_within_generation {past : List Tick} {t : Tick} (hw : ∀ u ∈ past ++ [t], u.WellBehaved)
    {pid : Pid} {stored : ProcessSnapshot} (hlive : (afterRun (past ++ [t])).process pid = some stored) :
    ∃ read, t.reading pid = some read ∧ Rated past t pid read stored := by
  have hpast : ∀ u ∈ past, u.WellBehaved := fun u hu => hw u (List.mem_append_left _ hu)
  have ht := hw t (by simp)
  have htable := lookup_current_run past ht
  have hstored := (htable pid).symm.trans hlive
  obtain ⟨read, hr, rfl⟩ := Option.map_eq_some_iff.mp hstored
  have hpercent (ar : RateArithmetic) : (ar.rateSnapshot t.now
        ((afterRun past).drainStale.history.lookup (pid, read.startTime)) read).cpu.percent =
      ar.ratePercent t.now (previousReading past (pid, read.startTime)) read := by
    rw [rateSnapshot_percent, ← ratePercent_erasePercent, newest_of_history hpast, ratePercent_erasePercent]
  refine ⟨read, hr, rateSnapshot_startTime _ _ _, rfl, hpercent, ratePercent_exact _ _ _, ?_, ?_, ?_⟩
  · intro hread
    rw [← ratePercent_exact]
    exact ⟨hpercent .double ▸ ratePercent_nonneg (fun q => toDouble_nonneg) hread.ge,
      ratePercent_nonneg (fun q h => h) hread.ge⟩
  · intro order
    rw [(tracks_run (past ++ [t]) pid).historyOf_eq, trackerOf_concat, experience_of_reading ht.2 hr]
    have hlog := pushSample_eq (n := defaultHistoryCapacity) (by decide)
      (((trackerOf past pid).liveAt read.startTime).map Generation.log)
    rw [(tracks_run past pid).drain_history]
    simp [Tracker.step, Tracker.observed, Generation.extendAgain, Generation.extend, hlog]
  · intro hown order
    refine (ProcessTree.lookup_collectNodes_rows ?_ pid).trans hlive
    intro p snap hp
    obtain ⟨r, hread, rfl⟩ := Option.map_eq_some_iff.mp ((htable p).symm.trans hp)
    rw [← hown p r hread, rateSnapshot]
    split <;> rfl

/-- Fifty ticks in five seconds are ten percent. -/
theorem cpu_rates_within_generation_two_calls :
    let past := [mockTick 1000 [snap 1 0 100 10 1000]]
    let t := mockTick 1005 [snap 1 0 100 60 1000]
    ∃ read stored, (afterRun (past ++ [t])).process 1 = some stored ∧ Rated past t 1 read stored ∧
      exactPercent t.now (previousReading past (1, 100)) read = 10 := by
  intro past t
  have hw : ∀ u ∈ past ++ [t], u.WellBehaved := by
    simp [past, t, Tick.WellBehaved, mockTick_succeeds, mockTick_distinct]
  obtain ⟨stored, hlive⟩ : ∃ stored, (afterRun (past ++ [t])).process 1 = some stored :=
    Option.isSome_iff_exists.mp rfl
  obtain ⟨read, hr, hrated⟩ := cpu_rates_within_generation hw hlive
  obtain rfl : snap 1 0 100 60 1000 = read := Option.some.inj hr
  refine ⟨_, stored, hlive, hrated, ?_⟩
  have hprevious : previousReading past (1, 100) = some (1000, snap 1 0 100 10 1000) := rfl
  rw [hprevious, exactPercent, if_neg (by decide)]
  have hticks (n : UInt64) : (snap 1 0 100 n 1000).cpu.totalTicks = n := UInt64.add_zero n
  rw [hticks, hticks]
  norm_num [show (60 : UInt64).toNat = 60 from rfl, show (10 : UInt64).toNat = 10 from rfl,
    show (1000 : Int64).toInt = 1000 from rfl, show t.now.toInt = 1005 from rfl]

end ProcessExplorer.Intelligence
