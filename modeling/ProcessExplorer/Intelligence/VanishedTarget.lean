import ProcessExplorer.Intelligence.SendSignal
import ProcessExplorer.Telemetry.Testing

/-! A verified signal to a process that has gone. No adapter signals anything then; which error the caller
gets depends on the adapter. -/
namespace ProcessExplorer.Telemetry
open Library Model Intelligence

/-- The mock, with the list of the signals sent so far as its state. -/
def MockTelemetryAdapter.control (mock : MockTelemetryAdapter) :
    ControlAdapter (StateM (List (Pid × Signal))) where
  process pid := match mock.processes.lookup pid with
    | some snapshot => pure snapshot
    | none => throw (.notFound pid)
  sendSignal pid signal :=
    if mock.processes.lookup pid = none then throw (.notFound pid)
    else ExceptT.lift (modify (· ++ [(pid, signal)]))

end ProcessExplorer.Telemetry

namespace ProcessExplorer.Intelligence
open Library Model Telemetry Telemetry.Linux

theorem mock_reports_not_found {mock : MockTelemetryAdapter} {pid : Pid} (h : mock.processes.lookup pid = none)
    (expected : UInt64) (signal : Signal) (sent : List (Pid × Signal)) :
    (sendSignalVerified mock.control pid expected signal).run.run sent = (.error (.notFound pid), sent) := by
  simp only [sendSignalVerified, MockTelemetryAdapter.control, h]
  rfl

section Vanished
variable (adapter : LinuxAdapter) (pid : Pid) (expected : UInt64) (signal : Signal)

/-- The calls so far began with the read of stat, and there was no such file. -/
def GoneFromStart (t : Interaction.Transcript SysCall SysCall.Answer) : Prop :=
  ∃ t', t = ⟨.proc (.readFile (procPath adapter.root pid "stat")), .error .notFound⟩ :: t'

/-- With no directory for the process from the start, a verified signal kills nothing, and both adapters
give the same typed error. -/
structure ReportsVanished : Prop where
  sends_nothing : ∀ t rest, (sendSignalVerified adapter.control pid expected signal).run.Reaches t rest →
    GoneFromStart adapter pid t → ∀ x ∈ t, ¬ x.1.IsKill
  not_found : ∀ t result, (sendSignalVerified adapter.control pid expected signal).run.Reaches t (.pure result) →
    GoneFromStart adapter pid t → result = .error (.notFound pid)
  agrees : ∀ t result, (sendSignalVerified adapter.control pid expected signal).run.Reaches t (.pure result) →
    GoneFromStart adapter pid t → ∀ (mock : MockTelemetryAdapter) (sent : List (Pid × Signal)),
      mock.processes.lookup pid = none →
      ((sendSignalVerified mock.control pid expected signal).run.run sent).1 = result

theorem exists_ask_stat : ∃ next, (sendSignalVerified adapter.control pid expected signal).run =
      .ask (.proc (.readFile (procPath adapter.root pid "stat"))) next ∧
    next (.error .notFound) = .pure (.error (.io (procPath adapter.root pid "stat") .notFound)) :=
  ⟨_, rfl, rfl⟩

variable {adapter pid expected signal}

theorem reaches_gone {t : Interaction.Transcript SysCall SysCall.Answer}
    {rest : Interaction SysCall SysCall.Answer (Result Unit)}
    (h : (sendSignalVerified adapter.control pid expected signal).run.Reaches t rest)
    (hgone : GoneFromStart adapter pid t) :
    t = [⟨.proc (.readFile (procPath adapter.root pid "stat")), .error .notFound⟩] ∧
      rest = .pure (.error (.io (procPath adapter.root pid "stat") .notFound)) := by
  obtain ⟨t', rfl⟩ := hgone
  obtain ⟨next, hask, hnext⟩ := exists_ask_stat adapter pid expected signal
  rw [hask] at h
  cases h with
  | answered _ _ _ h =>
    rw [hnext] at h
    obtain ⟨rfl, hrest⟩ := h.of_pure
    exact ⟨rfl, hrest⟩

variable (adapter pid expected signal)

theorem exists_reaches_gone : ∃ t result,
    (sendSignalVerified adapter.control pid expected signal).run.Reaches t (.pure result) ∧
      GoneFromStart adapter pid t ∧ result = .error (.io (procPath adapter.root pid "stat") .notFound) := by
  obtain ⟨next, hask, hnext⟩ := exists_ask_stat adapter pid expected signal
  refine ⟨_, _, ?_, ⟨[], rfl⟩, rfl⟩
  rw [hask, ← hnext]
  exact .answered _ next _ (.refl _)

theorem not_reportsVanished : ¬ ReportsVanished adapter pid expected signal := by
  intro h
  obtain ⟨t, result, hreaches, hgone, rfl⟩ := exists_reaches_gone adapter pid expected signal
  cases h.not_found t _ hreaches hgone

/-- For no process, start time or signal is a vanished process reported as such: nothing is killed, but the
error is the one of the file that was not found, which the mock does not give. -/
theorem vanished_is_reported_as_io_error :
    ¬ ReportsVanished adapter pid expected signal ∧
    ∀ t rest, (sendSignalVerified adapter.control pid expected signal).run.Reaches t rest →
      GoneFromStart adapter pid t →
      (∀ x ∈ t, ¬ x.1.IsKill) ∧
        rest = .pure (.error (.io (procPath adapter.root pid "stat") .notFound)) ∧
        ∀ (mock : MockTelemetryAdapter) (sent : List (Pid × Signal)), mock.processes.lookup pid = none →
          (sendSignalVerified mock.control pid expected signal).run.run sent = (.error (.notFound pid), sent) := by
  refine ⟨not_reportsVanished adapter pid expected signal, ?_⟩
  intro t rest hreaches hgone
  obtain ⟨rfl, rfl⟩ := reaches_gone hreaches hgone
  refine ⟨?_, rfl, fun mock sent hmock => mock_reports_not_found hmock expected signal sent⟩
  intro x hx
  obtain rfl := List.mem_singleton.mp hx
  rintro ⟨pid', signal', hk⟩
  cases hk

end Vanished

theorem vanished_4242_is_reported_as_io_error :
    (sendSignalVerified hostAdapter.control 4242 98765 .kill).run.Reaches
        [⟨.proc (.readFile "/proc/4242/stat"), .error .notFound⟩]
        (.pure (.error (.io "/proc/4242/stat" .notFound))) ∧
      ¬ ReportsVanished hostAdapter 4242 98765 .kill := by
  refine ⟨?_, not_reportsVanished hostAdapter 4242 98765 .kill⟩
  have hpath : procPath hostAdapter.root 4242 "stat" = "/proc/4242/stat" := by decide +kernel
  obtain ⟨next, hask, hnext⟩ := exists_ask_stat hostAdapter 4242 98765 .kill
  rw [hpath] at hask hnext
  rw [hask, ← hnext]
  exact .answered _ next _ (.refl _)

end ProcessExplorer.Intelligence
