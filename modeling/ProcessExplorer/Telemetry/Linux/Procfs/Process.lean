import ProcessExplorer.Telemetry.Linux.Procfs.Common

/-! /proc/[pid]/stat, status, cmdline and exe. -/
namespace ProcessExplorer.Telemetry.Linux
open Library Model

variable (root : String) (pid : Pid)

def readStat : Procfs StatFields := do
  let path := procPath root pid "stat"
  let content ← readToString path
  Procfs.liftExcept (parseStatLine content path)

/-- The first value after a key, as in "Uid:\t1000\t1000\t1000\t1000". -/
def firstStatusValue (content : Text) (key path : String) : Result UInt32 :=
  match (Text.lines content).find? (key.toList <+: ·) with
  | none => .error (parseErr path ("missing '" ++ key ++ "' line"))
  | some line => match Text.splitWhitespace (Text.trimStartMatches key.toList line) with
    | [] => .error (parseErr path ("'" ++ key ++ "' line has no value"))
    | value :: _ => match Text.parseU32 value with
      | some n => .ok n
      | none => .error (parseErr path ("'" ++ key ++ "' value is not an integer"))

/-- The real user and group of a process. -/
def readIds : Procfs (UInt32 × UInt32) := do
  let path := procPath root pid "status"
  let content ← readToString path
  let uid ← Procfs.liftExcept (firstStatusValue content "Uid:" path)
  let gid ← Procfs.liftExcept (firstStatusValue content "Gid:" path)
  pure (uid, gid)

def readCmdline : Procfs (List String) := do
  let content ← readToString (procPath root pid "cmdline")
  pure (((content.splitOn '\x00').filter (· ≠ [])).map String.ofList)

def readExe : Procfs (Option String) := do
  let target ← Procfs.readLink (procPath root pid "exe")
  pure target.toOption

end ProcessExplorer.Telemetry.Linux
