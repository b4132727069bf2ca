import ProcessExplorer.Telemetry.Linux.ProcessControl

/-! A signal that goes out only after a live read has confirmed whom it reaches. -/
namespace ProcessExplorer.Intelligence
open Library Model Telemetry

/-- The two methods of an adapter that a verified signal uses, with the effects of the monad m. -/
structure ControlAdapter (m : Type → Type) where
  process : Pid → ExceptT TelemetryError m ProcessSnapshot
  sendSignal : Pid → Signal → ExceptT TelemetryError m Unit

def sendSignalVerified {m : Type → Type} [Monad m] (adapter : ControlAdapter m) (pid : Pid)
    (expectedStartTime : UInt64) (signal : Signal) : ExceptT TelemetryError m Unit := do
  let live ← adapter.process pid
  if live.startTime ≠ expectedStartTime then throw (.pidReused pid expectedStartTime live.startTime)
  else adapter.sendSignal pid signal

end ProcessExplorer.Intelligence

namespace ProcessExplorer.Telemetry.Linux
open Library Model Intelligence

def LinuxAdapter.control (adapter : LinuxAdapter) : ControlAdapter (Interaction SysCall SysCall.Answer) where
  process pid := (adapter.process pid).onSystem
  sendSignal := sendSignal

/-- A transcript of file accesses, as one of calls to the kernel. -/
def accesses (t : Interaction.Transcript Access Access.Answer) :
    Interaction.Transcript SysCall SysCall.Answer := t.map fun x => ⟨.proc x.1, x.2⟩

def SysCall.IsKill (call : SysCall) : Prop := ∃ pid signal, call = .kill pid signal

theorem not_isKill_of_mem_accesses {t : Interaction.Transcript Access Access.Answer}
    {x : Σ call, SysCall.Answer call} (h : x ∈ accesses t) : ¬ x.1.IsKill := by
  obtain ⟨y, -, rfl⟩ := List.mem_map.mp h
  rintro ⟨pid, signal, hk⟩
  cases hk

section Verified
variable {adapter : LinuxAdapter} {pid : Pid} {expected : UInt64} {signal : Signal}
  {t : Interaction.Transcript SysCall SysCall.Answer}

/-- kill(2) is asked once, answered, and followed by nothing. -/
theorem reaches_sendSignal {rest : Interaction SysCall SysCall.Answer (Result Unit)}
    (h : (sendSignal pid signal).run.Reaches t rest) :
    t = [] ∨ ∃ answer, t = [⟨.kill pid signal, answer⟩] := by
  cases h with
  | refl => exact .inl rfl
  | answered _ _ answer h =>
    refine .inr ⟨answer, congrArg _ ?_⟩
    match answer, h with
    | .ok (), h => exact h.of_pure.1
    | .error .esrch, h => exact h.of_pure.1
    | .error .eperm, h => exact h.of_pure.1
    | .error (.other code), h => exact h.of_pure.1

/-- A verified call asks for the kill last, and only after a live read with the expected start time. -/
theorem kill_after_live_read {rest : Interaction SysCall SysCall.Answer (Result Unit)}
    (h : (sendSignalVerified adapter.control pid expected signal).run.Reaches t rest)
    (hkill : ∃ x ∈ t, x.1.IsKill) :
    ∃ t' live answer, t = accesses t' ++ [⟨.kill pid signal, answer⟩] ∧
      (adapter.control.process pid).run.Reaches (accesses t') (.pure (.ok live)) ∧
      (adapter.process pid).run.Reaches t' (.pure (.ok live)) ∧ live.startTime = expected := by
  have hnone {t' : Interaction.Transcript Access Access.Answer} (ht : t = accesses t') : False := by
    obtain ⟨x, hx, hk⟩ := hkill
    exact not_isKill_of_mem_accesses (ht ▸ hx) hk
  rcases h.of_bind with ⟨p, hp, -⟩ | ⟨t₁, t₂, result, ht, hlive, hrest⟩
  · -- The live read is still going on.
    obtain ⟨t', -, rfl, -, -⟩ := Interaction.Reaches.of_embed _ hp
    exact (hnone rfl).elim
  · obtain ⟨t', p', rfl, hprocess, hp⟩ := Interaction.Reaches.of_embed _ hlive
    obtain rfl : p' = .pure result := by
      cases p' with
      | pure r => simpa [Interaction.embed, eq_comm] using hp
      | ask q next => cases hp
    cases result with
    | error e =>
      obtain ⟨rfl, -⟩ := hrest.of_pure
      exact (hnone (by simpa [accesses] using ht)).elim
    | ok live =>
      change Interaction.Reaches (ExceptT.run (if live.startTime ≠ expected then
        throw (.pidReused pid expected live.startTime) else sendSignal pid signal)) t₂ rest at hrest
      by_cases hstart : live.startTime = expected
      · rw [if_neg (not_not.mpr hstart)] at hrest
        rcases reaches_sendSignal hrest with rfl | ⟨answer, rfl⟩
        · exact (hnone (by simpa [accesses] using ht)).elim
        · exact ⟨t', live, answer, ht, hlive, hprocess, hstart⟩
      · rw [if_pos hstart] at hrest
        obtain ⟨rfl, -⟩ := hrest.of_pure
        exact (hnone (by simpa [accesses] using ht)).elim

end Verified

end ProcessExplorer.Telemetry.Linux
