import Mathlib.Data.List.Destutter
import ProcessExplorer.Telemetry.Linux.Procfs.Common

/-! /proc/[pid]/cgroup, as one path and one list of controllers. -/
namespace ProcessExplorer.Telemetry.Linux
open Library Model

structure CgroupLine where
  hierarchyId : UInt32
  controllers : List Text
  path : Text

/-- The lines hierarchy-ID:controllers:path; any other line is left out. -/
def parseCgroupLines (content : Text) : List CgroupLine :=
  (Text.lines content).filterMap fun line =>
    match Text.splitn 3 ':' line with
    | [id, controllers, path] => (Text.parseU32 id).map fun hierarchyId =>
      { hierarchyId, controllers := (controllers.splitOn ',').filter (· ≠ []), path }
    | _ => none

/-- The controllers of a v2 cgroup, none when its own file is unreadable. -/
def readV2Controllers (sysRoot : String) (cgroupPath : Text) : Procfs (List String) := do
  let trimmed := String.ofList (Text.trimStartMatches ['/'] cgroupPath)
  let content ← fsReadToString (join (join sysRoot trimmed) "cgroup.controllers")
  pure (match content with
    | .ok content => (Text.splitWhitespace content).map String.ofList
    | .error _ => [])

/-- The v1 hierarchies as one group. A line with a name= entry only says nothing about resources. -/
def flattenV1 (lines : List CgroupLine) : CgroupInfo :=
  let controllers := (lines.flatMap CgroupLine.controllers).filter fun c => ¬ "name=".toList <+: c
  let sorted := controllers.mergeSort Text.le
  let path := ((lines.find? fun line => line.controllers ≠ []) <|> lines.head?).map CgroupLine.path
  { version := .v1
    path := String.ofList (path.getD [])
    controllers := (sorted.destutter (· ≠ ·)).map String.ofList }

def readCgroup (root sysRoot : String) (pid : Pid) : Procfs (Option CgroupInfo) := do
  match ← readToStringOptional (procPath root pid "cgroup") with
  | none => pure none
  | some content =>
    match parseCgroupLines content with
    | [] => pure none
    | [line] =>
      if line.hierarchyId = 0 then do
        let controllers ← readV2Controllers sysRoot line.path
        pure (some { version := .v2, path := String.ofList line.path, controllers })
      else pure (some (flattenV1 [line]))
    | lines => pure (some (flattenV1 lines))

/-- Nothing that the file may hold is an error. -/
theorem readCgroup_ok_iff (fs : FileSystem) (root sysRoot : String) (pid : Pid) :
    (∃ cgroup, (readCgroup root sysRoot pid).resultOn fs = .ok cgroup) ↔
      fs.text (procPath root pid "cgroup") = .error .notFound ∨
      ∃ content, fs.text (procPath root pid "cgroup") = .ok content := by
  simp only [readCgroup, Procfs.resultOn_bind, exists_bind_eq_ok, resultOn_readToStringOptional_ok_iff]
  constructor
  · rintro ⟨_, ⟨h, rfl⟩ | ⟨content, h, rfl⟩, -⟩
    · exact .inl h
    · exact .inr ⟨content, h⟩
  · rintro (h | ⟨content, h⟩)
    · exact ⟨none, .inl ⟨h, rfl⟩, none, rfl⟩
    · refine ⟨some content, .inr ⟨content, h, rfl⟩, ?_⟩
      dsimp only
      split
      · simp
      · split <;> simp [readV2Controllers]
      · simp

end ProcessExplorer.Telemetry.Linux
