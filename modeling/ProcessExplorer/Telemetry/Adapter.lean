import ProcessExplorer.Model.Timeline

/-! The seam between the intelligence layer and the way telemetry is collected.
An adapter is given by what it answers during one refresh. -/
namespace ProcessExplorer.Telemetry
open Model

/-- The kinds of I/O error the source tells apart, and all the others. -/
inductive ErrorKind where
  | notFound
  | permissionDenied
  | invalidData
  | other (code : Nat)
  deriving DecidableEq, Repr

inductive Tier where
  | continuous | shortSample | profile | deepTrace
  deriving DecidableEq, Repr

inductive TelemetryError where
  | notFound (pid : Pid)
  | permissionDenied (path : String)
  | parse (path message : String)
  | io (path : String) (source : ErrorKind)
  | unsupported (tier : Tier)
  | unsupportedPlatform (message : String)
  | pidReused (pid : Pid) (expected found : UInt64)
  deriving DecidableEq

abbrev Result (α : Type) := Except TelemetryError α

/-- The answers of the three reads that refresh_at makes, as they are on one tick. -/
structure TelemetryAdapter where
  listPids : Result (List Pid)
  process : Pid → Result ProcessSnapshot
  connections : Pid → Result (List NetworkConnection)

end ProcessExplorer.Telemetry
