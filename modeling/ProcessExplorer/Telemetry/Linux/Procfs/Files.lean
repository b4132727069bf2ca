import Mathlib.Data.Finset.Insert
import ProcessExplorer.Telemetry.Linux.Procfs.Common

/-! The open descriptors of a process. -/
namespace ProcessExplorer.Telemetry.Linux
open Library Model

inductive FileKind where
  | regular | directory | socket | pipe | charDevice | blockDevice | unknown
  deriving DecidableEq, Repr

structure OpenFile where
  fd : Int32
  /-- The resolved link target. -/
  path : String
  kind : FileKind

/-- A target that names no socket or pipe is resolved through the descriptor itself. -/
def classify (fdPath target : String) : Procfs FileKind :=
  if "socket:[".toList <+: target.toList then pure .socket
  else if "pipe:[".toList <+: target.toList then pure .pipe
  else do
    match ← Procfs.metadata fdPath with
    | .ok .dir => pure .directory
    | .ok .charDevice => pure .charDevice
    | .ok .blockDevice => pure .blockDevice
    | .ok .file => pure .regular
    | .ok .other => pure .unknown
    | .error _ => pure .unknown

/-- A descriptor that cannot be read is skipped: it may have been closed since the listing. -/
def readFds (fdDir : String) : List Pid → Procfs (List OpenFile)
  | [] => pure []
  | fd :: fds => do
    let path := join fdDir (toString fd)
    match ← Procfs.readLink path with
    | .error _ => readFds fdDir fds
    | .ok target => do
      let kind ← classify path target
      let files ← readFds fdDir fds
      pure ({ fd, path := target, kind } :: files)

def listOpenFiles (root : String) (pid : Pid) : Procfs (List OpenFile) := do
  let fdDir := procPath root pid "fd"
  let fds ← listNumericEntries fdDir
  readFds fdDir fds

/-- The inode in a target such as "socket:[12345]". -/
def socketInode (target : Text) : Option UInt64 :=
  if "socket:[".toList <+: target then
    let inner := target.drop 8
    if inner.getLast? = some ']' then Text.parseU64 inner.dropLast else none
  else none

def readInodes (fdDir : String) : List Pid → Procfs (Finset UInt64)
  | [] => pure ∅
  | fd :: fds => do
    match ← Procfs.readLink (join fdDir (toString fd)) with
    | .error _ => readInodes fdDir fds
    | .ok target => do
      let inodes ← readInodes fdDir fds
      match socketInode target.toList with
      | some inode => pure (insert inode inodes)
      | none => pure inodes

/-- The sockets that a process holds open. -/
def socketInodes (root : String) (pid : Pid) : Procfs (Finset UInt64) := do
  let fdDir := procPath root pid "fd"
  let fds ← listNumericEntries fdDir
  readInodes fdDir fds

end ProcessExplorer.Telemetry.Linux
