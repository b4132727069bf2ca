import ProcessExplorer.Library.Binary64
import ProcessExplorer.Model.Timeline

/-! Findings and the evidence behind them, and the details of a process that are read live. -/
namespace ProcessExplorer.Model
open Library

/-- From weakest to strongest. -/
inductive Confidence where
  | unknown | likely | correlated | observed
  deriving DecidableEq, Ord, Repr

inductive Severity where
  | info | notice | warning | critical
  deriving DecidableEq, Ord, Repr

instance : Min Confidence := @minOfLe _ leOfOrd _
instance : Max Severity := @maxOfLe _ leOfOrd _

structure Evidence where
  source : String
  collectedAt : Int64
  description : String
  /-- The value as it was read. -/
  raw : String
  deriving DecidableEq, Repr

structure Finding where
  severity : Severity
  title : String
  narrative : String
  confidence : Confidence
  evidence : List Evidence
  deriving DecidableEq, Repr

namespace Finding

/-- A claim stronger than unknown points at something. -/
def Backed (f : Finding) : Prop := f.confidence = .unknown ∨ f.evidence ≠ []

instance (f : Finding) : Decidable f.Backed := inferInstanceAs (Decidable (_ ∨ _))

/-- None when the assertion of a debug build fires. -/
def new (severity : Severity) (title narrative : String) (confidence : Confidence)
    (evidence : List Evidence) : Option Finding :=
  let finding : Finding := ⟨severity, title, narrative, confidence, evidence⟩
  if finding.Backed then some finding else none

theorem new_eq_some_iff {severity : Severity} {title narrative : String} {confidence : Confidence}
    {evidence : List Evidence} {f : Finding} :
    new severity title narrative confidence evidence = some f ↔
      f = ⟨severity, title, narrative, confidence, evidence⟩ ∧ f.Backed := by
  rw [new, Option.ite_none_right_eq_some, Option.some_inj, eq_comm (b := f)]
  constructor
  · rintro ⟨hb, rfl⟩
    exact ⟨rfl, hb⟩
  · rintro ⟨rfl, hb⟩
    exact ⟨hb, rfl⟩

end Finding

structure ThreadSnapshot where
  tid : Pid
  name : String
  state : ProcessState
  cpu : CpuStats
  priority : Int32
  nice : Int32
  /-- The CPUs it may run on; empty when that is not known. -/
  affinity : List UInt32
  deriving DecidableEq

structure SchedulerStats where
  onCpuNs : UInt64
  waitNs : UInt64

/-- The share of its scheduled time that a process waited; none before there is any. -/
def SchedulerStats.waitRatioPercent (stats : SchedulerStats) : Option ℚ :=
  let total := stats.onCpuNs + stats.waitNs
  if total = 0 then none
  else some (toDouble (toDouble (toDouble stats.waitNs.toNat / toDouble total.toNat) * 100))

structure DiskIoStats where
  readBytes : UInt64
  writeBytes : UInt64

end ProcessExplorer.Model
