import ProcessExplorer.Investigation.Rules

/-! When a process that waits for its CPU is reported as such. The rule returns before it asks the scheduler
where there is no thread with ticks. -/
namespace ProcessExplorer.Investigation
open Library Model Telemetry Intelligence

/-- At least a notice, at most likely, and with the scheduler's numbers as evidence. -/
def Surfaced (pid : Pid) (result : Option Finding) : Prop :=
  ∃ f, result = some f ∧ (compare Severity.notice f.severity).isLE ∧ (compare f.confidence .likely).isLE ∧
    ∃ ev ∈ f.evidence, ev.source = "/proc/" ++ toString pid ++ "/schedstat"

/-- The threads could be read, and the sum of their ticks is not zero. -/
def HasTicks (live : LiveReads) : Prop :=
  ∃ threads, live.threads = .ok threads ∧ (threads.map (·.cpu.totalTicks)).sum ≠ 0

theorem hasTicks_iff (live : LiveReads) : HasTicks live ↔
    ¬ ((live.threads.toOption.getD []).isEmpty ∨
      ((live.threads.toOption.getD []).map (·.cpu.totalTicks)).sum = 0) := by
  rw [HasTicks]
  cases live.threads with
  | error e => simp [Except.toOption]
  | ok threads => cases threads <;> simp [Except.toOption]

theorem dominance_cases {process : ProcessSnapshot} {pid : Pid} {threads : List ThreadSnapshot}
    {top : ThreadSnapshot} {topShare : ℚ} {said : Severity × String × String × Confidence}
    (h : dominance process pid threads top topShare = said) :
    ∃ title narrative, said = (.notice, title, narrative, .correlated) ∨
      said = (.info, title, narrative, .observed) := by
  subst h
  rw [dominance]
  split
  · exact ⟨_, _, .inl rfl⟩
  · exact ⟨_, _, .inr rfl⟩

/-- A finding with evidence is not refused. -/
theorem exists_new_concat (severity : Severity) (title narrative : String) (confidence : Confidence)
    (evidence : List Evidence) (ev : Evidence) :
    ∃ f, Finding.new severity title narrative confidence (evidence ++ [ev]) = some f ∧ ev ∈ f.evidence ∧
      f.severity = severity ∧ f.confidence = confidence := by
  have hne : evidence ++ [ev] ≠ [] := List.append_ne_nil_of_right_ne_nil _ (List.cons_ne_nil _ _)
  have hmem : ev ∈ evidence ++ [ev] := List.mem_append_right _ (List.mem_singleton_self _)
  exact ⟨_, Finding.new_eq_some_iff.mpr ⟨rfl, .inr hne⟩, hmem, rfl, rfl⟩

section Rule
variable {s : ProcessIntelligence} {live : LiveReads} {pid : Pid} {process : ProcessSnapshot}

/-- The early return is an observation without a severity. -/
theorem not_surfaced_of_no_ticks (hprocess : s.process pid = some process) (h : ¬ HasTicks live) :
    ¬ Surfaced pid (whyCpu s live pid) := by
  rintro ⟨f, hf, hseverity, -⟩
  rw [hasTicks_iff, not_not] at h
  rw [whyCpu, hprocess] at hf
  simp only [if_pos h, Finding.new_eq_some_iff] at hf
  have hinfo : ¬ (compare Severity.notice Severity.info).isLE := by decide
  rw [hf.1] at hseverity
  exact hinfo hseverity

/-- What is found of threads with ticks, once the scheduler has been asked. -/
theorem exists_whyCpu_of_ticks {stats : SchedulerStats} {ratio : ℚ} (hprocess : s.process pid = some process)
    (h : HasTicks live) (hsched : live.schedulerStats = .ok stats) (hratio : stats.waitRatioPercent = some ratio) :
    ∃ f, whyCpu s live pid = some f ∧ (∃ ev ∈ f.evidence, ev.source = "/proc/" ++ toString pid ++ "/schedstat") ∧
      if schedulingContentionThresholdPercent ≤ ratio then f.severity = .notice ∧ f.confidence = .likely
      else f.severity = .notice ∧ f.confidence = .correlated ∨ f.severity = .info ∧ f.confidence = .observed := by
  rw [hasTicks_iff] at h
  rw [whyCpu, hprocess]
  simp only [if_neg h]
  split
  · rename_i hsorted
    have hperm := List.mergeSort_perm (live.threads.toOption.getD []) fun a b =>
      decide (b.cpu.totalTicks ≤ a.cpu.totalTicks)
    rw [hsorted] at hperm
    simp [hperm.nil_eq.symm] at h
  · rename_i top _ _
    have hbind : (live.schedulerStats.toOption.bind fun sched => sched.waitRatioPercent.map (sched, ·)) =
        some (stats, ratio) := by simp [hsched, hratio, Except.toOption]
    rw [hbind]
    generalize hsaid : dominance process pid (live.threads.toOption.getD []) top _ = said
    dsimp only
    split_ifs
    · obtain ⟨f, hf, hev, hseverity, hconfidence⟩ := exists_new_concat _ _ _ _ _ _
      refine ⟨f, hf, ⟨_, hev, rfl⟩, ?_⟩
      obtain ⟨title, narrative, rfl | rfl⟩ := dominance_cases hsaid
      · exact ⟨hseverity, hconfidence⟩
      · exact ⟨hseverity, hconfidence⟩
    · obtain ⟨f, hf, hev, hseverity, hconfidence⟩ := exists_new_concat _ _ _ _ _ _
      refine ⟨f, hf, ⟨_, hev, rfl⟩, ?_⟩
      obtain ⟨title, narrative, rfl | rfl⟩ := dominance_cases hsaid
      · exact .inl ⟨hseverity, hconfidence⟩
      · exact .inr ⟨hseverity, hconfidence⟩

theorem surfaced_iff_of_ticks {stats : SchedulerStats} {ratio : ℚ} (hprocess : s.process pid = some process)
    (h : HasTicks live) (hsched : live.schedulerStats = .ok stats) (hratio : stats.waitRatioPercent = some ratio) :
    Surfaced pid (whyCpu s live pid) ↔ schedulingContentionThresholdPercent ≤ ratio := by
  have hobserved : ¬ (compare Confidence.observed .likely).isLE := by decide
  have hcorrelated : ¬ (compare Confidence.correlated .likely).isLE := by decide
  obtain ⟨f, hf, hcited, hkind⟩ := exists_whyCpu_of_ticks hprocess h hsched hratio
  constructor
  · rintro ⟨f', hf', -, hconfidence, -⟩
    obtain rfl := Option.some.inj (hf.symm.trans hf')
    by_contra hbelow
    rw [if_neg hbelow] at hkind
    rcases hkind with ⟨-, hkind⟩ | ⟨-, hkind⟩
    · exact hcorrelated (hkind ▸ hconfidence)
    · exact hobserved (hkind ▸ hconfidence)
  · intro hreached
    rw [if_pos hreached] at hkind
    exact ⟨f, hf, by rw [hkind.1]; decide, by rw [hkind.2]; decide, hcited⟩

end Rule

/-- A fifth is not a double; the double it rounds to is a little more. -/
theorem fifth_le_toDouble : (1 / 5 : ℚ) ≤ toDouble (1 / 5) := by decide +kernel

theorem waitRatioPercent_eq_some {stats : SchedulerStats} {total : ℕ}
    (htotal : stats.onCpuNs.toNat + stats.waitNs.toNat = total) (hpos : 0 < total) (hlt : total < 2 ^ 64) :
    stats.waitRatioPercent =
      some (toDouble (toDouble (toDouble stats.waitNs.toNat / toDouble total) * 100)) := by
  have hsum : (stats.onCpuNs + stats.waitNs).toNat = total := by
    rw [UInt64.toNat_add, htotal, Nat.mod_eq_of_lt hlt]
  have hne : stats.onCpuNs + stats.waitNs ≠ 0 := by
    intro h
    rw [h] at hsum
    exact hpos.ne hsum
  rw [SchedulerStats.waitRatioPercent, if_neg hne, hsum]

/-- Below 2 ^ 53 nanoseconds the doubles reach the threshold wherever the exact share does. -/
theorem threshold_le_of_share {wait total : ℕ} (hpos : 0 < total) (hlt : total < 2 ^ 53) (hle : wait ≤ total)
    (hshare : total ≤ 5 * wait) :
    schedulingContentionThresholdPercent ≤ toDouble (toDouble (toDouble wait / toDouble total) * 100) := by
  have htotal : (0 : ℚ) < total := by exact_mod_cast hpos
  have hfifth : (1 / 5 : ℚ) ≤ wait / total := by
    rw [div_le_div_iff₀ (by norm_num) htotal]
    have : (total : ℚ) ≤ 5 * wait := by exact_mod_cast hshare
    linarith
  have hround : (1 / 5 : ℚ) ≤ toDouble (wait / total) :=
    fifth_le_toDouble.trans (toDouble_mono (by norm_num) hfifth)
  rw [toDouble_natCast hlt, toDouble_natCast (lt_of_le_of_lt hle hlt), schedulingContentionThresholdPercent]
  apply le_toDouble (by norm_num)
  · exact isDouble_natCast (n := 20) (by norm_num)
  · linarith

/-- Contention is surfaced exactly when the threads can be read and have ticks, and the ratio in doubles is
still 20; below 2 ^ 53 nanoseconds it always is. -/
theorem contention_surfaced_iff (ticks : List Tick) (pid : Pid) (live : LiveReads) (stats : SchedulerStats)
    (hlive : ((afterRun ticks).process pid).isSome) (hsched : live.schedulerStats = .ok stats)
    (hpos : 0 < stats.onCpuNs.toNat + stats.waitNs.toNat)
    (hlt : stats.onCpuNs.toNat + stats.waitNs.toNat < 2 ^ 64)
    (hshare : stats.onCpuNs.toNat + stats.waitNs.toNat ≤ 5 * stats.waitNs.toNat) :
    (Surfaced pid (whyCpu (afterRun ticks) live pid) ↔
      HasTicks live ∧ ∀ ratio ∈ stats.waitRatioPercent, schedulingContentionThresholdPercent ≤ ratio) ∧
    (stats.onCpuNs.toNat + stats.waitNs.toNat < 2 ^ 53 →
      (Surfaced pid (whyCpu (afterRun ticks) live pid) ↔ HasTicks live)) := by
  obtain ⟨process, hprocess⟩ := Option.isSome_iff_exists.mp hlive
  have hratio := waitRatioPercent_eq_some rfl hpos hlt
  have hiff : Surfaced pid (whyCpu (afterRun ticks) live pid) ↔
      HasTicks live ∧ ∀ ratio ∈ stats.waitRatioPercent, schedulingContentionThresholdPercent ≤ ratio := by
    by_cases hticks : HasTicks live
    · rw [surfaced_iff_of_ticks hprocess hticks hsched hratio, hratio]
      simp [hticks]
    · simp [hticks, not_surfaced_of_no_ticks hprocess hticks]
  refine ⟨hiff, fun hsmall => hiff.trans (and_iff_left ?_)⟩
  rw [hratio]
  intro ratio h
  obtain rfl := Option.mem_some_iff.mp h
  exact threshold_le_of_share hpos hsmall (Nat.le_add_left _ _) hshare

/-- A process that waits, seen with the given threads. -/
def waiting (threads : Result (List ThreadSnapshot)) (onCpuNs waitNs : UInt64) : LiveReads where
  threads := threads
  schedulerStats := .ok ⟨onCpuNs, waitNs⟩
  connections := .ok []
  diskIo := .ok ⟨0, 0⟩
  nowUnix _ := 1000

def busyThread : ThreadSnapshot := ⟨1, "main", .running, ⟨100, 0, 0, 0, 0⟩, 20, 0, []⟩

def started : List Tick := [mockTick 1000 [snap 1 0 100 0 1000]]

theorem contention_surfaced_of_busy_thread :
    Surfaced 1 (whyCpu (afterRun started) (waiting (.ok [busyThread]) 700 300) 1) :=
  ((contention_surfaced_iff started 1 (waiting (.ok [busyThread]) 700 300) ⟨700, 300⟩ (by decide) rfl
    (by decide) (by decide) (by decide)).2 (by decide)).mpr ⟨_, rfl, by decide⟩

/-- 30 per cent of the time is spent waiting, and the threads could not be read. With a thread, waiting for
exactly a fifth of some 2 ^ 62 nanoseconds is rounded to less. -/
theorem contention_hidden :
    ¬ Surfaced 1 (whyCpu (afterRun started) (waiting (.error (.permissionDenied "/proc/1/task")) 700 300) 1) ∧
    ¬ Surfaced 1 (whyCpu (afterRun started)
      (waiting (.ok [busyThread]) 4611686018427388316 1152921504606847079) 1) := by
  obtain ⟨process, hprocess⟩ := Option.isSome_iff_exists.mp
    (show ((afterRun started).process 1).isSome by decide)
  constructor
  · apply not_surfaced_of_no_ticks hprocess
    rintro ⟨threads, hthreads, -⟩
    cases hthreads
  · have hratio : (⟨4611686018427388316, 1152921504606847079⟩ : SchedulerStats).waitRatioPercent =
        some (5629499534213119 / 281474976710656) := by decide +kernel
    rw [surfaced_iff_of_ticks hprocess ⟨_, rfl, by decide⟩ rfl hratio]
    decide +kernel

end ProcessExplorer.Investigation
