import ProcessExplorer.Investigation.Rules

/-! The two growth rules side by side. Both compare the memory of a process with a baseline in its history:
refresh_at with the newest entry that is old enough, why_memory with the oldest entry there is. -/
namespace ProcessExplorer.Investigation
open Library Model Telemetry Intelligence

def ReachesThreshold (round : ℚ → ℚ) (before after : UInt64) : Prop :=
  0 < before ∧ 50 ≤ round (round (round (round after.toNat - round before.toNat) / round before.toNat) * 100)

def GrownByHalf (round : ℚ → ℚ) (before after : UInt64) : Prop :=
  0 < before ∧ 3 * round before.toNat ≤ 2 * round after.toNat

/-- An arithmetic in which the rate reaches the threshold exactly when the size has grown by one half. -/
def Arithmetic (round : ℚ → ℚ) : Prop :=
  ∀ before after, ReachesThreshold round before after ↔ GrownByHalf round before after

theorem arithmetic_exact : Arithmetic id := by
  intro before after
  apply and_congr_right
  intro hpos
  have hposQ : (0 : ℚ) < before.toNat := by exact_mod_cast UInt64.lt_iff_toNat_lt.mp hpos
  simp only [id]
  rw [show (50 : ℚ) = 1 / 2 * 100 by norm_num, mul_le_mul_iff_left₀ (by norm_num), le_div_iff₀ hposQ]
  constructor <;> intro h <;> linarith

theorem arithmetic_toDouble : Arithmetic toDouble := by
  intro before after
  apply and_congr_right
  intro hpos
  have hposQ : (0 : ℚ) < before.toNat := by exact_mod_cast UInt64.lt_iff_toNat_lt.mp hpos
  have hB := toDouble_pos hposQ
  rcases Nat.le_total before.toNat after.toNat with hle | hle
  · exact threshold_iff _ _ hposQ (by exact_mod_cast hle)
  · -- A size that has not grown has a rate of at most zero.
    have hA : toDouble after.toNat ≤ toDouble before.toNat := by
      rcases Nat.eq_zero_or_pos after.toNat with hzero | hafter
      · simpa [hzero] using hB.le
      · exact toDouble_mono (by exact_mod_cast hafter) (by exact_mod_cast hle)
    have hratio : toDouble (toDouble after.toNat - toDouble before.toNat) / toDouble before.toNat ≤ 0 :=
      div_nonpos_of_nonpos_of_nonneg (toDouble_nonpos (by linarith)) hB.le
    have hrate := toDouble_nonpos (mul_nonpos_of_nonpos_of_nonneg (toDouble_nonpos hratio)
      (by norm_num : (0 : ℚ) ≤ 100))
    constructor <;> intro h <;> linarith

/-- What refresh_at looks for when it reads this size after a history with this log. -/
def RefreshReports (round : ℚ → ℚ) (now : Int64) (log : List RssReading) (rss : UInt64) : Prop :=
  ∃ newest ∈ log.reverse.find? (inWindow now), ReachesThreshold round newest.2 rss

/-- What why_memory looks for when the history holds these entries. -/
def OldestGrew (round : ℚ → ℚ) (now : Int64) (kept : List RssReading) (rss : UInt64) : Prop :=
  ∃ oldest ∈ kept.head?, inWindow now oldest ∧ ReachesThreshold round oldest.2 rss

def FindsSustainedGrowth (result : Option Finding) : Prop := ∃ f ∈ result, f.title = sustainedGrowth

/-- The size that a rule compares with; zero where it has no baseline, since nothing has grown from zero. -/
def baselineSize (baseline : Option RssReading) : UInt64 := (baseline.map Prod.snd).getD 0

/-- The tests of the two rules come out alike when so many readings of this size have been added. -/
def TestsAgree (round : ℚ → ℚ) (now : Int64) (log : List RssReading) (added : ℕ) (rss : UInt64) : Prop :=
  OldestGrew round now ((log ++ List.replicate added (now, rss)).rtake 120) rss ↔ RefreshReports round now log rss

/-- The baselines of the two rules are of one size: the newest entry that is old enough, and of those that are left
when so many readings have been added the oldest, if it is old enough. -/
def SameBaseline (now : Int64) (log : List RssReading) (added : ℕ) : Prop :=
  baselineSize (log.reverse.find? (inWindow now)) =
    baselineSize ((log.rtake (120 - added)).head?.filter (inWindow now))

instance (now : Int64) (log : List RssReading) (added : ℕ) : Decidable (SameBaseline now log added) :=
  inferInstanceAs (Decidable (_ = _))

def withRss (t : Tick) (pid : Pid) (rss : UInt64) : Tick :=
  let resized (snap : ProcessSnapshot) : ProcessSnapshot := { snap with memory := { snap.memory with rss } }
  { t with adapter := { t.adapter with
      process := fun p => if p = pid then (t.adapter.process p).map resized else t.adapter.process p } }

theorem findsSustainedGrowth_new {severity : Severity} {title narrative : String} {confidence : Confidence}
    {evidence : List Evidence} (h : confidence = .unknown ∨ evidence ≠ []) :
    FindsSustainedGrowth (Finding.new severity title narrative confidence evidence) ↔
      title = sustainedGrowth := by
  rw [Finding.new_eq_some_iff.mpr ⟨rfl, h⟩]
  simp [FindsSustainedGrowth]

theorem findsSustainedGrowth_iff (round : ℚ → ℚ) {s : ProcessIntelligence} {order : Visit HistoryKey}
    {live : LiveReads} {pid : Pid} {process : ProcessSnapshot} (hp : s.process pid = some process) :
    FindsSustainedGrowth (whyMemoryIn round s order live pid) ↔
      2 ≤ (s.historyOf order pid).length ∧
        ∃ oldest ∈ (s.historyOf order pid).head?, ∃ latest ∈ (s.historyOf order pid).getLast?,
          defaultGrowthWindowSecs ≤ latest.1 - oldest.1 ∧
            ReachesThreshold round oldest.2.memory.rss process.memory.rss := by
  have hother : "Memory usage" ≠ sustainedGrowth := by decide
  rw [whyMemoryIn, hp]
  dsimp only
  split
  · rw [findsSustainedGrowth_new (.inr (List.cons_ne_nil _ _))]
    simp [hother]
    omega
  · rename_i hlength
    split
    · rename_i hfirst hlast
      rw [hfirst, hlast]
      simp only [Option.mem_some_iff, exists_eq_left']
      split
      · rename_i hzero
        rw [findsSustainedGrowth_new (.inr (List.cons_ne_nil _ _)), iff_false_left hother]
        rintro ⟨-, -, hpos, -⟩
        simp [hzero] at hpos
      · rename_i hzero
        have hpos := UInt64.pos_iff_ne_zero.mpr hzero
        split
        · rename_i hgrown
          rw [findsSustainedGrowth_new (.inr (by simp)), iff_true_left rfl]
          exact ⟨by omega, hgrown.1, hpos, hgrown.2⟩
        · rename_i hgrown
          rw [findsSustainedGrowth_new (.inr (by simp)), iff_false_left hother]
          rintro ⟨-, hwindow, -, hrate⟩
          exact hgrown ⟨hwindow, hrate⟩
    · rename_i hnone
      obtain ⟨_, _, hfirst, hlast⟩ := exists_ends hlength
      exact absurd hlast (hnone _ _ _ _ hfirst)

/-- In a history that ends with the reading of this call, why_memory looks at the oldest entry. -/
theorem findsSustainedGrowth_iff_oldestGrew (round : ℚ → ℚ) {s : ProcessIntelligence} {order : Visit HistoryKey}
    {live : LiveReads} {pid : Pid} {process : ProcessSnapshot} {now : Int64} {log : List RssReading} {n : ℕ}
    (hp : s.process pid = some process)
    (hlog : rssLog (s.history.lookup (pid, process.startTime)) =
      (log ++ List.replicate (n + 1) (now, process.memory.rss)).rtake 120) :
    FindsSustainedGrowth (whyMemoryIn round s order live pid) ↔
      OldestGrew round now ((log ++ List.replicate (n + 1) (now, process.memory.rss)).rtake 120)
        process.memory.rss := by
  have hhistory : s.historyOf order pid = (s.history.lookup (pid, process.startTime)).getD [] := by
    rw [ProcessIntelligence.process] at hp
    simp [ProcessIntelligence.historyOf, ProcessIntelligence.historyKey, hp]
  rw [findsSustainedGrowth_iff round hp, OldestGrew]
  have hlast := congrArg List.getLast? hlog
  rw [List.replicate_succ', ← List.append_assoc, rtake_concat _ (by decide), List.getLast?_concat] at hlast
  rw [← hlog, rssLog, ← hhistory, List.head?_map]
  rw [rssLog, ← hhistory, List.getLast?_map, Option.map_eq_some_iff] at hlast
  obtain ⟨latest, hlatest, hnow⟩ := hlast
  obtain rfl : latest.1 = now := congrArg Prod.fst hnow
  constructor
  · rintro ⟨-, oldest, holdest, latest', hlatest', hwindow, hgrew⟩
    obtain rfl := Option.some.inj (hlatest.symm.trans hlatest')
    exact ⟨_, Option.mem_map_of_mem _ holdest, decide_eq_true hwindow, hgrew⟩
  · rintro ⟨_, hm, hwindow, hgrew⟩
    obtain ⟨oldest, holdest, rfl⟩ := Option.mem_map.mp hm
    refine ⟨?_, oldest, holdest, latest, hlatest, of_decide_eq_true hwindow, hgrew⟩
    -- A single entry would be the reading of this call, which is not old enough.
    obtain ⟨rest, hentries⟩ := List.head?_eq_some_iff.mp holdest
    cases rest with
    | nil =>
      rw [hentries, List.getLast?_singleton, Option.some_inj] at hlatest
      rw [hlatest, inWindow_now] at hwindow
      cases hwindow
    | cons second rest => simp [hentries]

section Baselines
variable {round : ℚ → ℚ} {now : Int64} {log : List RssReading} {n : ℕ} {rss : UInt64}

theorem not_reachesThreshold_zero (rss : UInt64) : ¬ ReachesThreshold round 0 rss := fun h => UInt64.lt_irrefl 0 h.1

theorem reachesThreshold_baselineSize (baseline : Option RssReading) :
    ReachesThreshold round (baselineSize baseline) rss ↔ ∃ x ∈ baseline, ReachesThreshold round x.2 rss := by
  cases baseline with
  | none => simp [baselineSize, not_reachesThreshold_zero]
  | some x => simp [baselineSize]

theorem refreshReports_iff : RefreshReports round now log rss ↔
    ReachesThreshold round (baselineSize (log.reverse.find? (inWindow now))) rss :=
  (reachesThreshold_baselineSize _).symm

theorem oldestGrew_iff : OldestGrew round now ((log ++ List.replicate n (now, rss)).rtake 120) rss ↔
    ReachesThreshold round (baselineSize ((log.rtake (120 - n)).head?.filter (inWindow now))) rss := by
  have hnew {x : RssReading} (hx : x ∈ List.replicate n (now, rss)) : inWindow now x = false := by
    rw [List.eq_of_mem_replicate hx, inWindow_now]
  have hhead : (((log ++ List.replicate n (now, rss)).rtake 120).head?.filter (inWindow now)) =
      (log.rtake (120 - n)).head?.filter (inWindow now) := by
    rcases Nat.le_total n 120 with hle | hle
    · rw [rtake_append_of_ge _ _ (by rwa [List.length_replicate]), List.length_replicate, List.head?_append]
      cases log.rtake (120 - n) with
      | nil =>
        cases hn : (List.replicate n (now, rss)).head? with
        | none => rfl
        | some x =>
          simp [Option.filter, hnew (List.mem_of_head? hn)]
      | cons x rest => rfl
    · rw [rtake_append_of_le _ _ (by rwa [List.length_replicate]), Nat.sub_eq_zero_of_le hle, List.rtake_zero]
      cases hn : ((List.replicate n (now, rss)).rtake 120).head? with
      | none => rfl
      | some x =>
        simp [Option.filter, hnew (mem_of_mem_rtake (List.mem_of_head? hn))]
  rw [← hhead, reachesThreshold_baselineSize, OldestGrew]
  simp [Option.filter_eq_some_iff, and_assoc]

theorem SameBaseline.testsAgree (h : SameBaseline now log n) : TestsAgree round now log n rss := by
  rw [TestsAgree, oldestGrew_iff, refreshReports_iff, h]

theorem exists_size_between {a b : UInt64} (hround : Arithmetic round)
    (hexact : ∀ k < 2 ^ 53, round (k : ℕ) = k) (hb : b.toNat < 2 ^ 52) (hlt : a < b) :
    ∃ rss, ReachesThreshold round a rss ≠ ReachesThreshold round b rss := by
  have hgrown {x y : UInt64} (hx : x.toNat < 2 ^ 53) (hy : y.toNat < 2 ^ 53) :
      ReachesThreshold round x y ↔ 0 < x.toNat ∧ 3 * x.toNat ≤ 2 * y.toNat := by
    rw [hround, GrownByHalf, hexact _ hx, hexact _ hy, UInt64.lt_iff_toNat_lt]
    norm_cast
  have hlt' := UInt64.lt_iff_toNat_lt.mp hlt
  rcases Nat.eq_zero_or_pos a.toNat with hzero | hpos
  · -- Nothing has grown from zero.
    have hsize : (UInt64.ofNat (2 * b.toNat)).toNat = 2 * b.toNat := UInt64.toNat_ofNat_of_lt' (by norm_num; omega)
    refine ⟨UInt64.ofNat (2 * b.toNat), fun h => ?_⟩
    have hiff := Iff.of_eq h
    rw [hgrown (by omega) (by omega), hgrown (by omega) (by omega), hsize] at hiff
    omega
  · have hsize : (UInt64.ofNat ((3 * a.toNat + 1) / 2)).toNat = (3 * a.toNat + 1) / 2 :=
      UInt64.toNat_ofNat_of_lt' (by norm_num; omega)
    refine ⟨UInt64.ofNat ((3 * a.toNat + 1) / 2), fun h => ?_⟩
    have hiff := Iff.of_eq h
    rw [hgrown (by omega) (by omega), hgrown (by omega) (by omega), hsize] at hiff
    omega

/-- The rules agree on every size that can be read now exactly when they compare with the same size. -/
theorem forall_agree_iff (hround : Arithmetic round) (hexact : ∀ k < 2 ^ 53, round (k : ℕ) = k)
    (hsizes : ∀ x ∈ log, x.2.toNat < 2 ^ 52) :
    (∀ rss, TestsAgree round now log n rss) ↔ SameBaseline now log n := by
  have hsize {baseline : Option RssReading} (h : ∀ x ∈ baseline, x ∈ log) :
      (baselineSize baseline).toNat < 2 ^ 52 := by
    cases baseline with
    | none => decide
    | some x => exact hsizes x (h x rfl)
  have hnewest : (baselineSize (log.reverse.find? (inWindow now))).toNat < 2 ^ 52 :=
    hsize fun x hx => List.mem_reverse.mp (List.mem_of_find?_eq_some hx)
  have holdest : (baselineSize ((log.rtake (120 - n)).head?.filter (inWindow now))).toNat < 2 ^ 52 :=
    hsize fun x hx => mem_of_mem_rtake (List.mem_of_head? (Option.filter_eq_some_iff.mp hx).1)
  constructor
  · intro h
    simp only [TestsAgree, oldestGrew_iff, refreshReports_iff] at h
    by_contra hne
    rcases Nat.lt_or_gt_of_ne fun h => hne (UInt64.toNat_inj.mp h) with hlt | hlt
    · obtain ⟨rss, hsplit⟩ := exists_size_between hround hexact holdest (UInt64.lt_iff_toNat_lt.mpr hlt)
      exact hsplit (propext (h rss)).symm
    · obtain ⟨rss, hsplit⟩ := exists_size_between hround hexact hnewest (UInt64.lt_iff_toNat_lt.mpr hlt)
      exact hsplit (propext (h rss))
  · exact fun hsame rss => hsame.testsAgree

end Baselines

theorem reading_of_live {s : ProcessIntelligence} {t : Tick} {pid : Pid} {tr : Tracker}
    {process : ProcessSnapshot} (h : Tracks s pid tr) (hc : Configured s) (ht : t.Succeeds)
    (hlive : (s.refreshAt t).1.process pid = some process) :
    ∃ read, t.reading pid = some read ∧ read.startTime = process.startTime ∧ read.memory = process.memory := by
  rw [ProcessIntelligence.process, (h.refreshAt hc).live] at hlive
  obtain ⟨pids, hl⟩ := ht
  rw [Tick.experience, hl] at hlive
  cases hr : t.reading pid with
  | none => simp [hr, Tracker.step] at hlive
  | some read =>
    simp only [hr, Tracker.step, Option.map_some, Option.some_inj] at hlive
    refine ⟨read, rfl, ?_, ?_⟩
    · rw [← hlive, Generation.newest_startTime, Tracker.observed_startTime]
    · rw [← hlive, Tracker.observed_newest_memory]

theorem live_of_reading {s : ProcessIntelligence} {t : Tick} {pid : Pid} {tr : Tracker} {read : ProcessSnapshot}
    (h : Tracks s pid tr) (hc : Configured s) (hread : t.reading pid = some read) :
    ∃ process, (s.refreshAt t).1.process pid = some process ∧ process.startTime = read.startTime ∧
      process.memory = read.memory := by
  obtain ⟨pids, hl⟩ : t.Succeeds := by
    rw [Tick.reading] at hread
    split at hread
    · exact ⟨_, ‹_›⟩
    · cases hread
  let next := tr.observed t.now read (t.adapter.connections pid) (pids.count pid - 1)
  refine ⟨next.newest, ?_, ?_, tr.observed_newest_memory ..⟩
  · rw [ProcessIntelligence.process, (h.refreshAt hc).live, Tick.experience, hl]
    simp only [hread, Tracker.step, Option.map_some, next]
  · rw [Generation.newest_startTime, Tracker.observed_startTime]

section Agreement
variable (past : List Tick) (t : Tick) (order : Visit HistoryKey) (live : LiveReads) (pid : Pid)

/-- The readings of a generation that a call after these ones compares with. -/
def logBefore (past : List Tick) (key : HistoryKey) : List RssReading :=
  rssLog ((afterRun past).drainStale.history.lookup key)

/-- After the call the rules of the code agree on the generation. -/
def AgreesInCode (past : List Tick) (t : Tick) (order : Visit HistoryKey) (live : LiveReads) (key : HistoryKey) :
    Prop :=
  FindsSustainedGrowth (whyMemory (afterRun (past ++ [t])) order live key.1) ↔
    GrowthReported key ((afterRun past).appended t)

/-- They agree in exact arithmetic, if this is the size that the call has read. -/
def AgreesExactly (past : List Tick) (t : Tick) (order : Visit HistoryKey) (live : LiveReads) (key : HistoryKey)
    (rss : UInt64) : Prop :=
  FindsSustainedGrowth (whyMemoryIn id (afterRun (past ++ [t])) order live key.1) ↔
    RefreshReports id t.now (logBefore past key) rss

theorem reading_withRss (rss : UInt64) {read : ProcessSnapshot} (hread : t.reading pid = some read) :
    ∃ resized, (withRss t pid rss).reading pid = some resized ∧ resized.startTime = read.startTime ∧
      resized.memory.rss = rss := by
  refine ⟨{ read with memory := { read.memory with rss } }, ?_, rfl, rfl⟩
  rw [Tick.reading] at hread ⊢
  simp only [withRss, if_true]
  cases hl : t.adapter.listPids with
  | error e => simp [hl] at hread
  | ok pids =>
    simp only [hl] at hread ⊢
    split at hread
    · rename_i hm
      rw [if_pos hm]
      cases hp : t.adapter.process pid with
      | error e => simp [hp, Except.toOption] at hread
      | ok found =>
        simp only [hp, Except.toOption, Option.some_inj] at hread
        subst hread
        rfl
    · cases hread

theorem length_rssReadings_withRss (rss : UInt64) :
    ((withRss t pid rss).rssReadings pid).length = (t.rssReadings pid).length := by
  simp only [Tick.rssReadings, withRss, if_true]
  cases t.adapter.listPids with
  | error e => rfl
  | ok pids => cases t.adapter.process pid <;> simp [Except.map]

variable {t pid}

/-- What the two rules look at after a call that reads the pid. -/
theorem agrees_iff {read : ProcessSnapshot} (hread : t.reading pid = some read) :
    let key := (pid, read.startTime)
    let rss := read.memory.rss
    let added := (t.rssReadings pid).length
    (AgreesInCode past t order live key ↔ TestsAgree toDouble t.now (logBefore past key) added rss) ∧
    (AgreesExactly past t order live key rss ↔ TestsAgree id t.now (logBefore past key) added rss) := by
  intro key rss added
  have hc := configured_run past
  obtain ⟨process, hlive, hst, hmemory⟩ := live_of_reading (tracks_run past pid) hc hread
  have hobs : t.observes key := by simp [Tick.observes, key, hread]
  obtain ⟨-, hlog, rss', n, hrss, hreadings, hreport⟩ := observing_call hc hobs
  obtain rfl : rss = rss' := by simpa [hread] using hrss
  have hadded : added = n + 1 := by simp [added, hreadings]
  rw [← afterRun_concat] at hlive hlog
  have hfinds (round : ℚ → ℚ) :
      FindsSustainedGrowth (whyMemoryIn round (afterRun (past ++ [t])) order live pid) ↔
        OldestGrew round t.now ((logBefore past key ++ List.replicate added (t.now, rss)).rtake 120) rss := by
    have hlog' : rssLog ((afterRun (past ++ [t])).history.lookup (pid, process.startTime)) =
        (logBefore past key ++ List.replicate (n + 1) (t.now, process.memory.rss)).rtake 120 := by
      rw [hst, hmemory, ← hreadings]
      exact hlog
    rw [findsSustainedGrowth_iff_oldestGrew round hlive hlog', hadded, hmemory]
  have hreport' : GrowthReported key ((afterRun past).appended t) ↔
      RefreshReports toDouble t.now (logBefore past key) rss := hreport
  rw [AgreesInCode, AgreesExactly, whyMemory, hreport', hfinds, hfinds]
  exact ⟨Iff.rfl, Iff.rfl⟩

variable (t pid)

/-- After a successful call the two rules agree on a process in the table when their baselines are of one size,
and only then do they agree whatever size the call reads. -/
theorem growth_rules_agree_iff (ht : t.Succeeds) {process : ProcessSnapshot}
    (hlive : (afterRun (past ++ [t])).process pid = some process) :
    let key := (pid, process.startTime)
    let same := SameBaseline t.now (logBefore past key) (t.rssReadings pid).length
    (afterRun (past ++ [t])).timeline = ((afterRun past).timeline ++ (afterRun past).appended t).rtake 1000 ∧
    (same → AgreesInCode past t order live key ∧ AgreesExactly past t order live key process.memory.rss) ∧
    ((∀ x ∈ logBefore past key, x.2.toNat < 2 ^ 52) →
      ((∀ rss, AgreesInCode past (withRss t pid rss) order live key) ↔ same) ∧
      ((∀ rss, AgreesExactly past (withRss t pid rss) order live key rss) ↔ same)) := by
  obtain ⟨read, hread, hst, hmemory⟩ :=
    reading_of_live (tracks_run past pid) (configured_run past) ht (afterRun_concat past t ▸ hlive)
  rw [← hst, ← hmemory]
  intro key same
  refine ⟨afterRun_concat past t ▸ timeline_appended past t, ?_, ?_⟩
  · intro hsame
    obtain ⟨hcode, hexact⟩ := agrees_iff past order live hread
    exact ⟨hcode.mpr hsame.testsAgree, hexact.mpr hsame.testsAgree⟩
  · intro hsizes
    have hagrees (rss : UInt64) :
        (AgreesInCode past (withRss t pid rss) order live key ↔
          TestsAgree toDouble t.now (logBefore past key) (t.rssReadings pid).length rss) ∧
        (AgreesExactly past (withRss t pid rss) order live key rss ↔
          TestsAgree id t.now (logBefore past key) (t.rssReadings pid).length rss) := by
      obtain ⟨resized, hresized, hst', rfl⟩ := reading_withRss t pid rss hread
      have h := agrees_iff past order live hresized
      rwa [hst', length_rssReadings_withRss] at h
    simp only [fun rss => (hagrees rss).1, fun rss => (hagrees rss).2]
    exact ⟨forall_agree_iff arithmetic_toDouble (fun _ hk => toDouble_natCast hk) hsizes,
      forall_agree_iff arithmetic_exact (fun _ _ => rfl) hsizes⟩

end Agreement

def failedReads (pid : Pid) : LiveReads where
  threads := .error (.notFound pid)
  schedulerStats := .error (.notFound pid)
  connections := .error (.notFound pid)
  diskIo := .error (.notFound pid)
  nowUnix _ := 0

theorem growth_rules_agree_two_ticks :
    (AgreesInCode [sizeTick 0 1000000] (sizeTick 3600 1700000) .stored (failedReads 1) (1, 100) ∧
      AgreesExactly [sizeTick 0 1000000] (sizeTick 3600 1700000) .stored (failedReads 1) (1, 100) 1700000) ∧
    ∀ rss, AgreesInCode [sizeTick 0 1000000] (withRss (sizeTick 3600 1700000) 1 rss) .stored (failedReads 1)
      (1, 100) := by
  obtain ⟨-, hagree, hany⟩ := growth_rules_agree_iff [sizeTick 0 1000000] (sizeTick 3600 1700000) .stored
    (failedReads 1) 1 ⟨_, rfl⟩ rfl
  have hsame : SameBaseline 3600 [(0, 1000000)] 1 := by decide
  have hsizes : ∀ x ∈ ([(0, 1000000)] : List RssReading), x.2.toNat < 2 ^ 52 := by
    intro x hx
    rw [List.mem_singleton.mp hx]
    decide
  exact ⟨hagree hsame, (hany hsizes).1.mpr hsame⟩

/-- Memory grows early and then stays: an hour later the oldest entry still shows the growth, the
newest that is old enough does not. -/
theorem growth_rules_disagree_after_plateau :
    let past := [sizeTick 0 1000, sizeTick 1800 3000]
    let t := sizeTick 5400 3000
    (afterRun (past ++ [t])).timeline = ((afterRun past).timeline ++ (afterRun past).appended t).rtake 1000 ∧
    (FindsSustainedGrowth (whyMemory (afterRun (past ++ [t])) .stored (failedReads 1) 1) ∧
      ¬ GrowthReported (1, 100) ((afterRun past).appended t)) ∧
    FindsSustainedGrowth (whyMemoryIn id (afterRun (past ++ [t])) .stored (failedReads 1) 1) ∧
      ¬ RefreshReports id t.now (logBefore past (1, 100)) 3000 := by
  intro past t
  obtain ⟨process, hlive, hst, hrss⟩ : ∃ process, (afterRun (past ++ [t])).process 1 = some process ∧
      process.startTime = 100 ∧ process.memory.rss = 3000 := ⟨_, rfl, rfl, rfl⟩
  have hkept : rssLog ((afterRun (past ++ [t])).history.lookup (1, 100)) =
      (([(0, 1000), (1800, 3000)] : List RssReading) ++ List.replicate 1 (5400, 3000)).rtake 120 := rfl
  have hold {round : ℚ → ℚ} (hround : Arithmetic round) (h : GrownByHalf round 1000 3000) :
      FindsSustainedGrowth (whyMemoryIn round (afterRun (past ++ [t])) .stored (failedReads 1) 1) := by
    apply (findsSustainedGrowth_iff_oldestGrew round hlive (by rw [hst, hrss]; exact hkept)).mpr
    rw [hrss]
    exact ⟨(0, 1000), rfl, rfl, (hround 1000 3000).mpr h⟩
  have hnew {round : ℚ → ℚ} (hround : Arithmetic round) (h : ¬ GrownByHalf round 3000 3000) :
      ¬ RefreshReports round t.now (logBefore past (1, 100)) 3000 := by
    have hnewest : (logBefore past (1, 100)).reverse.find? (inWindow t.now) = some (1800, 3000) := by decide
    rintro ⟨newest, hm, hgrew⟩
    rw [hnewest] at hm
    obtain rfl := Option.some.inj hm
    exact h ((hround 3000 3000).mp hgrew)
  have hpos : (0 : UInt64) < 1000 := by decide
  have hgrown : GrownByHalf toDouble 1000 3000 ∧ ¬ GrownByHalf toDouble 3000 3000 := by
    have h1000 : toDouble (1000 : UInt64).toNat = 1000 := toDouble_natCast (by decide)
    have h3000 : toDouble (3000 : UInt64).toNat = 3000 := toDouble_natCast (by decide)
    rw [GrownByHalf, GrownByHalf, h1000, h3000]
    norm_num [hpos]
  have hgrownExact : GrownByHalf id 1000 3000 ∧ ¬ GrownByHalf id 3000 3000 := by
    have h1000 : (1000 : UInt64).toNat = 1000 := rfl
    have h3000 : (3000 : UInt64).toNat = 3000 := rfl
    rw [GrownByHalf, GrownByHalf, h1000, h3000]
    norm_num [hpos]
  have hreport : GrowthReported (1, 100) ((afterRun past).appended t) ↔
      RefreshReports toDouble t.now (logBefore past (1, 100)) 3000 := by
    have hobs : t.observes (1, 100) := rfl
    obtain ⟨-, -, rss, -, hread, -, hreport⟩ := observing_call (configured_run past) hobs
    obtain rfl : rss = 3000 := (Option.some.inj hread).symm
    exact hreport
  rw [hreport]
  exact ⟨afterRun_concat past t ▸ timeline_appended past t,
    ⟨hold arithmetic_toDouble hgrown.1, hnew arithmetic_toDouble hgrown.2⟩,
    hold arithmetic_exact hgrownExact.1, hnew arithmetic_exact hgrownExact.2⟩

end ProcessExplorer.Investigation
