import ProcessExplorer.Intelligence.MovingFiles
import ProcessExplorer.Telemetry.Linux.KernelProcess
import ProcessExplorer.Telemetry.Testing

/-! The in-memory adapter stands for the Linux adapter: over the /proc of a host, a refresh does what it does over
the mock that was told of the processes of the host. -/
namespace ProcessExplorer.Intelligence
open Library Model Telemetry Telemetry.Linux

/-- The mock that has been told of these processes, one after the other. -/
def mockOf (pageSize : UInt64) (processes : List KernelProcess) : MockTelemetryAdapter :=
  processes.foldl (fun mock p => (mock.setProcess (p.snapshot pageSize)).setConnections p.pid p.connections) .new

/-- A pass over a hash table that happens to visit it in this order. -/
def inOrder (pids : List Pid) : Visit Pid where
  run keys := if pids.Perm keys then pids else keys
  perm keys := by
    split
    · assumption
    · exact .refl keys

/-- /proc lists these processes, among other entries, and shows each of them. Nothing of them is lost in reading. -/
structure ShowsTable (adapter : LinuxAdapter) (fs : FileSystem) (processes : List KernelProcess) : Prop where
  listed : ∃ names : List (Option Text), fs (.readDir adapter.root) = .ok (names.map .ok) ∧
    names.filterMap (fun name => name.bind Text.parseI32) = processes.map KernelProcess.pid
  distinct : (processes.map KernelProcess.pid).Nodup
  shown : ∀ p ∈ processes, p.Shown adapter fs
  fullArgs : ∀ p ∈ processes, p.FullArgs
  plainNames : ∀ p ∈ processes, p.PlainNames

/-- A call of refresh_at, the files as they are during it, and the processes there are. -/
structure HostStep where
  call : Call
  files : FileSystem
  processes : List KernelProcess

/-- The same call over the mock of these processes. -/
def HostStep.tick (step : HostStep) (pageSize : UInt64) : Tick :=
  step.call.tick ((mockOf pageSize step.processes).adapter (inOrder (step.processes.map KernelProcess.pid)))

section Mock
variable (pageSize : UInt64) (processes : List KernelProcess)

theorem mockOf_concat (p : KernelProcess) : mockOf pageSize (processes ++ [p]) =
    ((mockOf pageSize processes).setProcess (p.snapshot pageSize)).setConnections p.pid p.connections := by
  rw [mockOf, List.foldl_append]
  rfl

theorem mem_mockOf (pid : Pid) :
    pid ∈ (mockOf pageSize processes).processes ↔ pid ∈ processes.map KernelProcess.pid := by
  induction processes using List.reverseRecOn with
  | nil => simp [mockOf, MockTelemetryAdapter.new]
  | append_singleton processes p ih =>
    rw [mockOf_concat]
    simp only [MockTelemetryAdapter.setConnections, MockTelemetryAdapter.setProcess, AList.mem_insert, ih,
      List.map_append, List.mem_append, List.map_singleton, List.mem_singleton]
    exact or_comm

variable {processes} (hd : (processes.map KernelProcess.pid).Nodup)
include hd

theorem lookup_mockOf {p : KernelProcess} (hp : p ∈ processes) :
    (mockOf pageSize processes).processes.lookup p.pid = some (p.snapshot pageSize) ∧
    (mockOf pageSize processes).connections.lookup p.pid = some p.connections := by
  induction processes using List.reverseRecOn with
  | nil => cases hp
  | append_singleton processes last ih =>
    rw [mockOf_concat]
    simp only [MockTelemetryAdapter.setConnections, MockTelemetryAdapter.setProcess, HashMap.lookup_insert]
    rw [List.map_append, List.nodup_append] at hd
    obtain ⟨hd, -, hlast⟩ := hd
    rcases List.mem_append.mp hp with hp | hp
    · have hne : p.pid ≠ last.pid := hlast _ (List.mem_map_of_mem hp) _ (by simp)
      have hne' : p.pid ≠ (last.snapshot pageSize).pid := hne
      rw [if_neg hne, if_neg hne']
      exact ih hd hp
    · obtain rfl := List.mem_singleton.mp hp
      exact ⟨if_pos rfl, if_pos rfl⟩

theorem listPids_mockOf : ((mockOf pageSize processes).adapter (inOrder (processes.map KernelProcess.pid))).listPids =
    .ok (processes.map KernelProcess.pid) := by
  have hperm : (processes.map KernelProcess.pid).Perm (mockOf pageSize processes).processes.keys :=
    (List.perm_ext_iff_of_nodup hd (AList.keys_nodup _)).mpr fun pid =>
      (mem_mockOf pageSize processes pid).symm.trans AList.mem_keys
  exact congrArg Except.ok (if_pos hperm)

end Mock

section Refresh
variable {adapter : LinuxAdapter} {fs : FileSystem} {processes : List KernelProcess}
  (h : ShowsTable adapter fs processes) (s : ProcessIntelligence) (call : Call)
include h

/-- One iteration over the files of a process is one over what the mock says of it. -/
theorem visit_of_shows {p : KernelProcess} (hp : p ∈ processes) (pass : Pass) :
    (visit adapter s call pass p.pid).run fs =
      some (observe s ((HostStep.mk call fs processes).tick adapter.pageSize) pass p.pid) := by
  have hprocess : Interaction.run fs (adapter.process p.pid).run = .ok (p.snapshot adapter.pageSize) :=
    (h.shown p hp).process_iff.mpr (h.fullArgs p hp)
  have hconnections : Interaction.run fs (adapter.connections p.pid).run.run = .ok (some p.connections) :=
    (h.shown p hp).connections_iff.mpr (h.plainNames p hp)
  obtain ⟨hsnapshot, hconns⟩ := lookup_mockOf adapter.pageSize h.distinct hp
  rw [visit, Interaction.run_bind, hprocess]
  dsimp only
  rw [Interaction.run_bind, hconnections]
  refine congrArg some (observe_congr s call ?_ (fun _ _ => ?_) pass)
  · simp [MockTelemetryAdapter.adapter, answering, hsnapshot]
  · simp [MockTelemetryAdapter.adapter, answering, hconns]

theorem visits_of_shows {pids : List KernelProcess} (hpids : ∀ p ∈ pids, p ∈ processes) (pass : Pass) :
    (visits adapter s call (pids.map KernelProcess.pid) pass).run fs =
      some ((pids.map KernelProcess.pid).foldl
        (observe s ((HostStep.mk call fs processes).tick adapter.pageSize)) pass) := by
  induction pids generalizing pass with
  | nil => rfl
  | cons p pids ih =>
    obtain ⟨hp, hpids⟩ := List.forall_mem_cons.mp hpids
    rw [List.map_cons, visits, Interaction.run_bind, visit_of_shows h s call hp]
    exact ih hpids _

/-- A refresh over the files of a host is one over the mock of its processes. -/
theorem refreshOver_of_shows : (refreshOver adapter s call).run fs =
    some (s.refreshAt ((HostStep.mk call fs processes).tick adapter.pageSize)) := by
  obtain ⟨names, hdir, hnames⟩ := h.listed
  have hlist : Interaction.run fs adapter.listPids.run = .ok (processes.map KernelProcess.pid) :=
    (resultOn_listNumericEntries fs hdir).trans (congrArg Except.ok hnames)
  have hmock : ((HostStep.mk call fs processes).tick adapter.pageSize).adapter.listPids =
      .ok (processes.map KernelProcess.pid) := listPids_mockOf adapter.pageSize h.distinct
  rw [refreshOver, Interaction.run_bind, hlist]
  dsimp only
  rw [Interaction.run_bind, visits_of_shows h _ _ fun _ => id, ProcessIntelligence.refreshAt, hmock]
  rfl

end Refresh

/-- Over hosts that change from call to call, the service comes to the state to which the mocks of these hosts
bring it. -/
theorem refreshing_of_shows {adapter : LinuxAdapter} {steps : List HostStep}
    (h : ∀ step ∈ steps, ShowsTable adapter step.files step.processes) (s : ProcessIntelligence) :
    ∃ parts, List.Forall₂ (fun part step => ∀ x ∈ part, x.2 = HostStep.files step x.1) parts steps ∧
      (refreshing adapter (steps.map HostStep.call) s).Reaches parts.flatten
        (.pure (some (service.run s (steps.map (·.tick adapter.pageSize))))) := by
  induction steps generalizing s with
  | nil => exact ⟨[], .nil, .refl _⟩
  | cons step steps ih =>
    obtain ⟨hstep, hsteps⟩ := List.forall_mem_cons.mp h
    have hrun := refreshOver_of_shows hstep s step.call
    obtain ⟨parts, hparts, hreaches⟩ := ih hsteps (s.refreshAt (step.tick adapter.pageSize)).1
    refine ⟨(refreshOver adapter s step.call).transcript step.files :: parts, .cons ?_ hparts, ?_⟩
    · exact fun x hx => Interaction.answer_of_mem_transcript step.files _ hx
    · have hfirst := Interaction.reaches_run step.files (refreshOver adapter s step.call)
      rw [hrun] at hfirst
      exact hfirst.bind hreaches

/-- A host on which nothing runs. -/
def idleFiles : FileSystem
  | .readFile _ => .error .notFound
  | .readLink _ => .error .notFound
  | .readDir _ => .ok [.ok (some "self".toList)]
  | .metadata _ => .error .notFound

/-- The daemon is found, and then it is gone. -/
def sshdSteps : List HostStep :=
  [⟨daemonRefresh, sshdFiles, [sshd]⟩, ⟨{ daemonRefresh with now := 1005 }, idleFiles, []⟩]

theorem sshdSteps_shown : ∀ step ∈ sshdSteps, ShowsTable hostAdapter step.files step.processes := by
  have hsshd : ShowsTable hostAdapter sshdFiles [sshd] := by
    refine ⟨⟨[some "self".toList, some "42".toList, some "meminfo".toList], ?_, ?_⟩, ?_, ?_, ?_, ?_⟩
    · decide +kernel
    · decide +kernel
    · exact List.nodup_singleton _
    · exact List.forall_mem_singleton.mpr sshd_shown
    · exact List.forall_mem_singleton.mpr sshd_fullArgs
    · exact List.forall_mem_singleton.mpr sshd_plainNames
  have hidle : ShowsTable hostAdapter idleFiles [] :=
    ⟨⟨[some "self".toList], rfl, by decide⟩, List.nodup_nil, List.forall_mem_nil _, List.forall_mem_nil _,
      List.forall_mem_nil _⟩
  exact List.forall_mem_cons.mpr ⟨hsshd, List.forall_mem_singleton.mpr hidle⟩

theorem refreshing_of_shows_sshd :
    ∃ parts, List.Forall₂ (fun part step => ∀ x ∈ part, x.2 = HostStep.files step x.1) parts sshdSteps ∧
      (refreshing hostAdapter [daemonRefresh, { daemonRefresh with now := 1005 }] .new).Reaches parts.flatten
        (.pure (some (afterRun (sshdSteps.map (·.tick 4096))))) :=
  refreshing_of_shows sshdSteps_shown .new

end ProcessExplorer.Intelligence
