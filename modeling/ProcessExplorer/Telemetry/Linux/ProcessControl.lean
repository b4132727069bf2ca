import ProcessExplorer.Model.ProcessControl
import ProcessExplorer.Telemetry.Linux.Adapter

/-! The one operation on a process that is not a read. -/
namespace ProcessExplorer.Telemetry.Linux
open Library Model

/-- What kill(2) reports when it does not deliver. -/
inductive Errno where
  | esrch | eperm | other (code : ℕ)
  deriving DecidableEq, Repr

/-- A call to the kernel: an access to its files, or kill(2). -/
inductive SysCall where
  | proc (a : Access)
  | kill (pid : Pid) (signal : Signal)
  deriving DecidableEq

abbrev SysCall.Answer : SysCall → Type
  | .proc a => a.Answer
  | .kill _ _ => Except Errno Unit

/-- A program over the kernel, with a result that may be an error. -/
abbrev System (α : Type) := ExceptT TelemetryError (Interaction SysCall SysCall.Answer) α

def Procfs.onSystem {α : Type} (x : Procfs α) : System α :=
  ExceptT.mk (Interaction.embed (B := SysCall.Answer) SysCall.proc x.run)

def sendSignal (pid : Pid) (signal : Signal) : System Unit := do
  match ← (ExceptT.lift (Interaction.query (SysCall.kill pid signal)) : System (Except Errno Unit)) with
  | .ok () => pure ()
  | .error .esrch => throw (.notFound pid)
  | .error .eperm => throw (.permissionDenied ("not permitted to signal pid " ++ toString pid))
  | .error (.other code) =>
    throw (.io ("kill(" ++ toString pid ++ ", " ++ signal.name ++ ")") (.other code))

end ProcessExplorer.Telemetry.Linux
