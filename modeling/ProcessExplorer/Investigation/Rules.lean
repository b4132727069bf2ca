import Mathlib.Data.UInt
import ProcessExplorer.Intelligence.Exits
import ProcessExplorer.Library.Text
import ProcessExplorer.Model.Evidence

/-! The investigation rules. Each returns none where the source would panic. -/
namespace ProcessExplorer.Investigation
open Library Model Telemetry Intelligence

/-- What the adapter answers about one process while it is investigated, and the
clock at each of the places that ask it. A read that panics answers nothing and is not modelled here. -/
structure LiveReads where
  threads : Result (List ThreadSnapshot)
  schedulerStats : Result SchedulerStats
  connections : Result (List NetworkConnection)
  diskIo : Result DiskIoStats
  nowUnix : ℕ → Int64

def schedulingContentionThresholdPercent : ℚ := 20
def dominanceThresholdPercent : ℚ := 80

def notFound (pid : Pid) : Option Finding :=
  Finding.new .info "Process not found"
    ("pid " ++ toString pid ++ " is not in the currently tracked process set")
    .unknown []

/-- The subject that most texts begin with. -/
def subject (process : ProcessSnapshot) (pid : Pid) : String := process.name ++ " (pid " ++ toString pid ++ ")"

/-- What is said of the top thread: severity, title, narrative and confidence. -/
def dominance (process : ProcessSnapshot) (pid : Pid) (threads : List ThreadSnapshot) (top : ThreadSnapshot)
    (topShare : ℚ) : Severity × String × String × Confidence :=
  if threads.length > 1 ∧ dominanceThresholdPercent ≤ topShare then
    (.notice, "Single-thread CPU dominance",
      "thread '" ++ top.name ++ "' (tid " ++ toString top.tid ++ ") accounts for " ++ oneDecimal topShare ++
        "% of " ++ process.name ++ "'s accumulated CPU ticks across " ++ toString threads.length ++ " threads",
      .correlated)
  else
    (.info, "CPU usage spread across threads",
      subject process pid ++ " is at " ++ oneDecimal process.cpu.percent ++ "% CPU, spread across " ++
        toString threads.length ++ " threads with no single dominant thread",
      .observed)

def whyCpu (s : ProcessIntelligence) (live : LiveReads) (pid : Pid) : Option Finding :=
  match s.process pid with
  | none => notFound pid
  | some process =>
    let threads := live.threads.toOption.getD []
    let totalTicks := (threads.map (·.cpu.totalTicks)).sum
    let evidence : List Evidence := [{
      source := "process " ++ toString pid ++ " snapshot"
      collectedAt := live.nowUnix 0
      description := "process-level CPU utilization"
      raw := oneDecimal process.cpu.percent ++ "%" }]
    if threads.isEmpty ∨ totalTicks = 0 then
      Finding.new .info "CPU usage"
        (subject process pid ++ " is at " ++ oneDecimal process.cpu.percent ++
          "% CPU; no per-thread breakdown available")
        .observed evidence
    else
      match threads.mergeSort fun a b => b.cpu.totalTicks ≤ a.cpu.totalTicks with
      | [] => none
      | top :: _ =>
        let topShare := toDouble
          (toDouble (toDouble top.cpu.totalTicks.toNat / toDouble totalTicks.toNat) * 100)
        let evidence := evidence ++ [{
          source := "threads of process " ++ toString pid
          collectedAt := live.nowUnix 1
          description := "top thread '" ++ top.name ++ "' (tid " ++ toString top.tid ++ ")"
          raw := toString top.cpu.totalTicks ++ " / " ++ toString totalTicks ++ " total ticks (" ++
            oneDecimal topShare ++ "%)" }]
        let (severity, title, narrative, confidence) := dominance process pid threads top topShare
        match live.schedulerStats.toOption.bind fun sched => sched.waitRatioPercent.map (sched, ·) with
        | none => Finding.new severity title narrative confidence evidence
        | some (sched, waitRatio) =>
          let evidence := evidence ++ [{
            source := "/proc/" ++ toString pid ++ "/schedstat"
            collectedAt := live.nowUnix 2
            description := "time spent waiting for a CPU vs. running on one"
            raw := "on_cpu_ns=" ++ toString sched.onCpuNs ++ " wait_ns=" ++ toString sched.waitNs ++ " (" ++
              oneDecimal waitRatio ++ "% waiting)" }]
          if schedulingContentionThresholdPercent ≤ waitRatio then
            Finding.new (max severity .notice) title
              (narrative ++ "; also spending " ++ oneDecimal waitRatio ++
                "% of its scheduled time waiting for a CPU rather than running — possible scheduling " ++
                "contention")
              (min confidence .likely) evidence
          else Finding.new severity title narrative confidence evidence

/-- The growth rate; the code rounds every intermediate result to a double. -/
def growthPercentIn (round : ℚ → ℚ) (baseline process : ProcessSnapshot) : ℚ :=
  let before := round baseline.memory.rss.toNat
  round (round (round (round process.memory.rss.toNat - before) / before) * 100)

def sustainedGrowth : String := "Sustained memory growth"

def whyMemoryIn (round : ℚ → ℚ) (s : ProcessIntelligence) (order : Visit HistoryKey) (live : LiveReads)
    (pid : Pid) : Option Finding :=
  match s.process pid with
  | none => notFound pid
  | some process =>
    let history := s.historyOf order pid
    let memory := process.memory
    let evidence : List Evidence := [{
      source := "process " ++ toString pid ++ " snapshot"
      collectedAt := live.nowUnix 3
      description := "memory breakdown"
      raw := "rss=" ++ toString memory.rss ++ " anon=" ++ toString memory.anonymous ++ " file=" ++
        toString memory.fileBacked ++ " shared=" ++ toString memory.shared ++ " private=" ++
        toString memory.priv ++ " swap=" ++ toString memory.swap ++ " (bytes)" }]
    if history.length < 2 then
      Finding.new .info "Memory usage"
        (subject process pid ++ " is using " ++ toString memory.rss ++
          " bytes RSS; no history yet to assess growth")
        .observed evidence
    else
      match history.head?, history.getLast? with
      | some (baselineAt, baseline), some (latestAt, _) =>
        if baseline.memory.rss = 0 then
          Finding.new .info "Memory usage"
            (subject process pid ++ " is using " ++ toString memory.rss ++ " bytes RSS") .observed evidence
        else
          let growth := growthPercentIn round baseline process
          let windowSecs := latestAt - baselineAt
          let evidence := evidence ++ [{
            source := "history of process " ++ toString pid
            collectedAt := latestAt
            description := "RSS at start of the observed window (" ++ toString windowSecs ++ "s ago)"
            raw := toString baseline.memory.rss ++ " bytes" }]
          if defaultGrowthWindowSecs ≤ windowSecs ∧ defaultGrowthThresholdPercent ≤ growth then
            Finding.new .warning sustainedGrowth
              (subject process pid ++ "'s RSS grew " ++ oneDecimal growth ++ "% over the last " ++
                toString (windowSecs / 60) ++ "m — worth checking for a leak")
              .likely evidence
          else
            -- The threshold of 50.0 is displayed as 50.
            Finding.new .info "Memory usage"
              (subject process pid ++ "'s RSS changed " ++ oneDecimal growth ++ "% over the last " ++
                toString windowSecs ++ "s (below the 50%/" ++ toString (defaultGrowthWindowSecs / 60) ++
                "m threshold, or too little history yet)")
              .correlated evidence
      | _, _ => none

def whyMemory : ProcessIntelligence → Visit HistoryKey → LiveReads → Pid → Option Finding :=
  whyMemoryIn toDouble

def whyNetwork (s : ProcessIntelligence) (live : LiveReads) (pid : Pid) : Option Finding :=
  match s.process pid with
  | none => notFound pid
  | some process =>
    let connections := live.connections.toOption.getD []
    let established := connections.countP (·.state = .established)
    let evidence : List Evidence := [{
      source := "connections of process " ++ toString pid
      collectedAt := live.nowUnix 4
      description := "open connections/sockets"
      raw := toString connections.length ++ " total, " ++ toString established ++ " established" }]
    if connections.isEmpty then
      Finding.new .info "Network activity" (subject process pid ++ " has no open network connections")
        .observed evidence
    else
      Finding.new .info "Network activity"
        (subject process pid ++ " holds " ++ toString connections.length ++ " connections/sockets (" ++
          toString established ++ " established)")
        .observed evidence

def whyDisk (s : ProcessIntelligence) (live : LiveReads) (pid : Pid) : Option Finding :=
  match s.process pid with
  | none => notFound pid
  | some process =>
    match live.diskIo with
    | .error _ =>
      Finding.new .info "Disk I/O"
        (subject process pid ++
          "'s /proc/[pid]/io could not be read (permission denied or unsupported)")
        .unknown []
    | .ok io =>
      Finding.new .info "Disk I/O"
        (subject process pid ++ " has read " ++ toString io.readBytes ++ " and written " ++
          toString io.writeBytes ++ " bytes from/to disk since it started")
        .observed
        [{ source := "/proc/" ++ toString pid ++ "/io"
           collectedAt := live.nowUnix 5
           description := "cumulative disk I/O since process start"
           raw := "read_bytes=" ++ toString io.readBytes ++ " write_bytes=" ++ toString io.writeBytes }]

def investigate (s : ProcessIntelligence) (order : Visit HistoryKey) (live : LiveReads) (pid : Pid) :
    Option (List Finding) := do
  if (s.process pid).isNone then return [← notFound pid]
  return [← whyCpu s live pid, ← whyMemory s order live pid, ← whyNetwork s live pid, ← whyDisk s live pid]

/-- The first exit that the timeline still holds for the pid. -/
def exitEvent (s : ProcessIntelligence) (pid : Pid) : Option TimelineEvent :=
  (s.timelineOf pid).find? (isExited ·.kind)

/-- The last growth that is dated no later than the exit. -/
def growthBeforeExit (s : ProcessIntelligence) (pid : Pid) (exit : TimelineEvent) : Option TimelineEvent :=
  (s.timelineOf pid).reverse.find? fun e => isGrowth e.kind ∧ e.observedAt ≤ exit.observedAt

def exitEvidence (pid : Pid) (exit : TimelineEvent) : Evidence where
  source := "timeline of process " ++ toString pid
  collectedAt := exit.observedAt
  description := "exit event"
  raw := exit.description

def growthEvidence (pid : Pid) (growth : TimelineEvent) : Evidence where
  source := "timeline of process " ++ toString pid
  collectedAt := growth.observedAt
  description := "memory-growth event preceding exit"
  raw := growth.description

def oomEvidence (exit : TimelineEvent) (line : String) : Evidence where
  source := "kernel log"
  collectedAt := exit.observedAt
  description := "matching OOM-kill line"
  raw := line

/-- The finding about an exit, from the growth and the line of the kernel log that go with it. -/
def crashFinding (pid : Pid) (exit : TimelineEvent) :
    Option TimelineEvent → Option String → Option Finding
  | some growth, some line =>
    Finding.new .critical "Likely OOM kill"
      ("pid " ++ toString pid ++ " exited after sustained memory growth, and the kernel log records an" ++
        " OOM kill mentioning this pid")
      .likely [exitEvidence pid exit, growthEvidence pid growth, oomEvidence exit line]
  | none, some line =>
    Finding.new .warning "Possible OOM kill"
      ("pid " ++ toString pid ++ " exited and the kernel log records an OOM kill mentioning this pid, but no" ++
        " sustained memory growth was recorded beforehand")
      .correlated [exitEvidence pid exit, oomEvidence exit line]
  | some growth, none =>
    Finding.new .notice "Exit preceded by memory growth"
      ("pid " ++ toString pid ++ " exited after sustained memory growth was recorded, but no matching kernel" ++
        " OOM-kill line was found")
      .correlated [exitEvidence pid exit, growthEvidence pid growth]
  | none, none =>
    Finding.new .info "Exit, cause unclear"
      ("pid " ++ toString pid ++ " exited; no sustained memory growth or OOM-kill line was found to" ++
        " explain why")
      .unknown []

def crashAnalysis (s : ProcessIntelligence) (pid : Pid) (oomKillLines : List String) : Option Finding :=
  match exitEvent s pid with
  | none =>
    Finding.new .info "Crash analysis" ("pid " ++ toString pid ++ " has no recorded exit yet") .unknown []
  | some exit =>
    crashFinding pid exit (growthBeforeExit s pid exit)
      (oomKillLines.find? fun line => Text.contains (toString pid).toList line.toList)

/-- A history with two entries has a first one and a last one. -/
theorem exists_ends {α : Type} {l : List α} (h : ¬ l.length < 2) :
    ∃ first last, l.head? = some first ∧ l.getLast? = some last := by
  have hne : l ≠ [] := by
    rintro rfl
    simp at h
  exact ⟨l.head hne, l.getLast hne, List.head?_eq_some_head hne, List.getLast?_eq_some_getLast hne⟩

/-- The rule does not panic, and what it finds is backed. -/
def Concludes (result : Option Finding) : Prop := ∃ f, result = some f ∧ f.Backed

theorem concludes_new {severity : Severity} {title narrative : String} {confidence : Confidence}
    {evidence : List Evidence} (h : confidence = .unknown ∨ evidence ≠ []) :
    Concludes (Finding.new severity title narrative confidence evidence) :=
  ⟨_, Finding.new_eq_some_iff.mpr ⟨rfl, h⟩, h⟩

section Conclusions
variable (s : ProcessIntelligence) (order : Visit HistoryKey) (live : LiveReads) (pid : Pid)

theorem concludes_notFound : Concludes (notFound pid) := concludes_new (.inl rfl)

theorem concludes_whyCpu : Concludes (whyCpu s live pid) := by
  rw [whyCpu]
  split
  · exact concludes_notFound pid
  · dsimp only
    split
    · exact concludes_new (.inr (List.cons_ne_nil _ _))
    · rename_i process _ hthreads
      split
      · -- There is a thread, so the sorted list has a first one.
        rename_i hsorted
        have hperm := List.mergeSort_perm (live.threads.toOption.getD []) fun a b =>
          decide (b.cpu.totalTicks ≤ a.cpu.totalTicks)
        rw [hsorted] at hperm
        simp [hperm.nil_eq.symm] at hthreads
      · split
        · exact concludes_new (.inr (by simp))
        · split <;> exact concludes_new (.inr (by simp))

theorem concludes_whyMemory : Concludes (whyMemory s order live pid) := by
  rw [whyMemory, whyMemoryIn]
  split
  · exact concludes_notFound pid
  · dsimp only
    split
    · exact concludes_new (.inr (List.cons_ne_nil _ _))
    · rename_i hlength
      split
      · split
        · exact concludes_new (.inr (List.cons_ne_nil _ _))
        · split <;> exact concludes_new (.inr (by simp))
      · rename_i hnone
        obtain ⟨_, _, hfirst, hlast⟩ := exists_ends hlength
        exact absurd hlast (hnone _ _ _ _ hfirst)

theorem concludes_whyNetwork : Concludes (whyNetwork s live pid) := by
  rw [whyNetwork]
  split
  · exact concludes_notFound pid
  · dsimp only
    split <;> exact concludes_new (.inr (List.cons_ne_nil _ _))

theorem concludes_whyDisk : Concludes (whyDisk s live pid) := by
  rw [whyDisk]
  split
  · exact concludes_notFound pid
  · split
    · exact concludes_new (.inl rfl)
    · exact concludes_new (.inr (List.cons_ne_nil _ _))

theorem concludes_crashFinding (exit : TimelineEvent) (growth : Option TimelineEvent) (line : Option String) :
    Concludes (crashFinding pid exit growth line) := by
  rw [crashFinding.eq_def]
  split
  · exact concludes_new (.inr (List.cons_ne_nil _ _))
  · exact concludes_new (.inr (List.cons_ne_nil _ _))
  · exact concludes_new (.inr (List.cons_ne_nil _ _))
  · exact concludes_new (.inl rfl)

theorem concludes_crashAnalysis (oomKillLines : List String) :
    Concludes (crashAnalysis s pid oomKillLines) := by
  rw [crashAnalysis]
  split
  · exact concludes_new (.inl rfl)
  · exact concludes_crashFinding _ _ _ _

/-- In any state, whatever the live reads answer, no rule panics and every finding is backed. -/
theorem every_finding_backed (oomKillLines : List String) :
    Concludes (whyCpu s live pid) ∧ Concludes (whyMemory s order live pid) ∧
      Concludes (whyNetwork s live pid) ∧ Concludes (whyDisk s live pid) ∧
      Concludes (crashAnalysis s pid oomKillLines) ∧
      ∃ findings, investigate s order live pid = some findings ∧ ∀ f ∈ findings, f.Backed := by
  refine ⟨concludes_whyCpu s live pid, concludes_whyMemory s order live pid, concludes_whyNetwork s live pid,
    concludes_whyDisk s live pid, concludes_crashAnalysis s pid oomKillLines, ?_⟩
  rw [investigate]
  split
  · obtain ⟨f, hf, hb⟩ := concludes_notFound pid
    exact ⟨[f], by simp [hf], by simpa using hb⟩
  · obtain ⟨cpu, hcpu, hcpuBacked⟩ := concludes_whyCpu s live pid
    obtain ⟨memory, hmemory, hmemoryBacked⟩ := concludes_whyMemory s order live pid
    obtain ⟨network, hnetwork, hnetworkBacked⟩ := concludes_whyNetwork s live pid
    obtain ⟨disk, hdisk, hdiskBacked⟩ := concludes_whyDisk s live pid
    exact ⟨[cpu, memory, network, disk], by simp [hcpu, hmemory, hnetwork, hdisk],
      by simp [hcpuBacked, hmemoryBacked, hnetworkBacked, hdiskBacked]⟩

end Conclusions
end ProcessExplorer.Investigation
