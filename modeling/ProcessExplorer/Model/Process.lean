import Mathlib.Data.Rat.Defs

/-! The snapshot of one process. Fixed-width integers keep their Rust widths;
an f64 is the rational it denotes, and arithmetic on it rounds. -/
namespace ProcessExplorer.Model

/-- Matches the kernel's pid_t. -/
abbrev Pid := Int32

inductive ProcessState where
  | running | sleeping | diskSleep | zombie | stopped | tracingStop | dead | idle
  | unknown (c : Char)
  deriving DecidableEq, Repr

def ProcessState.fromProcChar : Char → ProcessState
  | 'R' => .running
  | 'S' => .sleeping
  | 'D' => .diskSleep
  | 'Z' => .zombie
  | 'T' | 't' => .stopped
  | 'X' | 'x' => .dead
  | 'I' => .idle
  | other => .unknown other

/-- Cumulative ticks, and the rate that only the intelligence layer can fill in. -/
structure CpuStats where
  utimeTicks : UInt64
  stimeTicks : UInt64
  percent : ℚ
  voluntaryCtxtSwitches : UInt64
  nonvoluntaryCtxtSwitches : UInt64
  deriving DecidableEq

def CpuStats.totalTicks (c : CpuStats) : UInt64 := c.utimeTicks + c.stimeTicks

/-- Bytes; the four middle fields are zero when smaps_rollup was not available. -/
structure MemoryBreakdown where
  rss : UInt64
  vsz : UInt64
  anonymous : UInt64
  fileBacked : UInt64
  shared : UInt64
  priv : UInt64
  swap : UInt64
  deriving DecidableEq

inductive CgroupVersion where
  | v1 | v2
  deriving DecidableEq, Repr

structure CgroupInfo where
  version : CgroupVersion
  path : String
  controllers : List String
  deriving DecidableEq

structure ProcessSnapshot where
  pid : Pid
  ppid : Pid
  pgid : Pid
  sid : Pid
  name : String
  cmdline : List String
  exe : Option String
  state : ProcessState
  uid : UInt32
  gid : UInt32
  /-- Clock ticks since boot; together with the pid it names one generation. -/
  startTime : UInt64
  cpu : CpuStats
  memory : MemoryBreakdown
  threadCount : UInt32
  openFileCount : UInt32
  cgroup : Option CgroupInfo
  deriving DecidableEq

namespace ProcessSnapshot

def withPercent (snap : ProcessSnapshot) (percent : ℚ) : ProcessSnapshot :=
  { snap with cpu := { snap.cpu with percent := percent } }

/-- The snapshot without the one field that refresh_at computes itself. -/
def erasePercent (snap : ProcessSnapshot) : ProcessSnapshot := snap.withPercent 0

end ProcessSnapshot

/-- A process with nothing remarkable about it. -/
def snap (pid ppid : Pid) (startTime utime rss : UInt64) : ProcessSnapshot where
  pid := pid
  ppid := ppid
  pgid := pid
  sid := pid
  name := "proc-" ++ toString pid
  cmdline := []
  exe := none
  state := .running
  uid := 1000
  gid := 1000
  startTime := startTime
  cpu := ⟨utime, 0, 0, 0, 0⟩
  memory := ⟨rss, 0, 0, 0, 0, 0, 0⟩
  threadCount := 1
  openFileCount := 0
  cgroup := none

end ProcessExplorer.Model
