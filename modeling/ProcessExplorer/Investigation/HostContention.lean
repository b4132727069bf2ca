import ProcessExplorer.Investigation.Contention
import ProcessExplorer.Telemetry.Linux.ProcessDetails

/-! From the files of a process to the finding that it waits for its CPU. -/
namespace ProcessExplorer.Investigation
open Library Model Telemetry Telemetry.Linux Intelligence

theorem not_surfaced_of_no_ratio {s : ProcessIntelligence} {live : LiveReads} {pid : Pid} {process : ProcessSnapshot}
    (hprocess : s.process pid = some process)
    (h : (live.schedulerStats.toOption.bind fun sched => sched.waitRatioPercent.map (sched, ·)) = none) :
    ¬ Surfaced pid (whyCpu s live pid) := by
  by_cases hticks : HasTicks live
  · have hobserved : ¬ (compare Confidence.observed .likely).isLE := by decide
    have hcorrelated : ¬ (compare Confidence.correlated .likely).isLE := by decide
    rintro ⟨f, hf, -, hconfidence, -⟩
    rw [hasTicks_iff] at hticks
    rw [whyCpu, hprocess] at hf
    simp only [if_neg hticks, h] at hf
    split at hf
    · cases hf
    · generalize hsaid : dominance process pid (live.threads.toOption.getD []) _ _ = said at hf
      obtain ⟨rfl, -⟩ := Finding.new_eq_some_iff.mp hf
      obtain ⟨title, narrative, rfl | rfl⟩ := dominance_cases hsaid
      · exact hcorrelated hconfidence
      · exact hobserved hconfidence
  · exact not_surfaced_of_no_ticks hprocess hticks

section Host
variable {adapter : LinuxAdapter} {fs : FileSystem} {d : KernelDetails} {live : LiveReads}
  {schedGetaffinity : Pid → Except ErrorKind CpuSet}

/-- The ticks of all its threads, as the counter of the rule adds them up. -/
def kernelTicks (d : KernelDetails) : UInt64 := (d.threads.map fun thread => thread.stat.utime + thread.stat.stime).sum

theorem hasTicks_of_shown (h : d.CpuShown adapter fs)
    (hthreads : live.threads = (adapter.threads schedGetaffinity d.pid).resultOn fs) :
    HasTicks live ↔ kernelTicks d ≠ 0 := by
  rw [HasTicks, hthreads, h.threads_eq schedGetaffinity]
  have hticks : ((d.threads.map fun thread => KernelDetails.threadSnapshot schedGetaffinity thread.stat).map
      (·.cpu.totalTicks)).sum = kernelTicks d := by
    rw [List.map_map, kernelTicks]
    rfl
  rw [← hticks]
  constructor
  · rintro ⟨threads, heq, hne⟩
    rwa [← Except.ok.inj heq] at hne
  · intro hne
    exact ⟨_, rfl, hne⟩

end Host

/-- What /proc shows of a process decides the finding: it waits for its CPU when its threads have ticks and the ratio
of its schedstat reaches the threshold, and a fifth of less than 2 ^ 53 nanoseconds always does. -/
theorem contention_on_host {adapter : LinuxAdapter} {fs : FileSystem} {d : KernelDetails} (h : d.CpuShown adapter fs)
    (schedGetaffinity : Pid → Except ErrorKind CpuSet) (s : ProcessIntelligence) (live : LiveReads)
    (hlive : (s.process d.pid).isSome)
    (hthreads : live.threads = (adapter.threads schedGetaffinity d.pid).resultOn fs)
    (hsched : live.schedulerStats = ((adapter.schedulerStats d.pid).resultOn fs).map (·.toSchedulerStats)) :
    (Surfaced d.pid (whyCpu s live d.pid) ↔ kernelTicks d ≠ 0 ∧
      ∃ ratio ∈ d.schedstat.waitRatioPercent, schedulingContentionThresholdPercent ≤ ratio) ∧
    (0 < d.schedstat.onCpuNs.toNat + d.schedstat.waitNs.toNat →
      d.schedstat.onCpuNs.toNat + d.schedstat.waitNs.toNat < 2 ^ 53 →
      d.schedstat.onCpuNs.toNat + d.schedstat.waitNs.toNat ≤ 5 * d.schedstat.waitNs.toNat →
        (Surfaced d.pid (whyCpu s live d.pid) ↔ kernelTicks d ≠ 0)) := by
  obtain ⟨process, hprocess⟩ := Option.isSome_iff_exists.mp hlive
  have hsched' : live.schedulerStats = .ok d.schedstat.toSchedulerStats := by
    rw [hsched, h.schedulerStats_eq]
    rfl
  have hticks := hasTicks_of_shown h hthreads
  have hiff : Surfaced d.pid (whyCpu s live d.pid) ↔ kernelTicks d ≠ 0 ∧
      ∃ ratio ∈ d.schedstat.waitRatioPercent, schedulingContentionThresholdPercent ≤ ratio := by
    cases hratio : d.schedstat.waitRatioPercent with
    | none =>
      have hnone : (live.schedulerStats.toOption.bind fun sched => sched.waitRatioPercent.map (sched, ·)) = none := by
        simp [hsched', hratio, Except.toOption]
      simp [not_surfaced_of_no_ratio hprocess hnone]
    | some ratio =>
      by_cases hbusy : kernelTicks d ≠ 0
      · rw [surfaced_iff_of_ticks hprocess (hticks.mpr hbusy) hsched' hratio]
        simp [hbusy]
      · simp [hbusy, not_surfaced_of_no_ticks hprocess (hticks.not.mpr hbusy)]
  refine ⟨hiff, fun hpos hsmall hshare => hiff.trans (and_iff_left ?_)⟩
  have hratio := waitRatioPercent_eq_some rfl hpos (hsmall.trans (by decide))
  exact ⟨_, hratio, threshold_le_of_share hpos hsmall (Nat.le_add_left _ _) hshare⟩

theorem contention_on_host_sherd :
    Surfaced 100 (whyCpu (afterRun [mockTick 1000 [snap 100 1 7 0 1000]]) {
      threads := (hostAdapter.threads (fun _ => .error .permissionDenied) 100).resultOn sherdDetailFiles
      schedulerStats := ((hostAdapter.schedulerStats 100).resultOn sherdDetailFiles).map (·.toSchedulerStats)
      connections := .ok []
      diskIo := (hostAdapter.diskIo 100).resultOn sherdDetailFiles
      nowUnix := fun _ => 1000 } 100) :=
  ((contention_on_host sherdDetails_shown.toCpuShown (fun _ => .error .permissionDenied) _ _ (by decide) rfl rfl).2
    (by decide) (by decide) (by decide)).mpr (by decide)

end ProcessExplorer.Investigation
