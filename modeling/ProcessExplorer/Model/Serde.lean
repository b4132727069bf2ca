import ProcessExplorer.Library.Serde
import ProcessExplorer.Model.Timeline

/-! The JSON of snapshots and events, as serde derives it from their declarations. -/
namespace ProcessExplorer.Model
open Library

def ProcessState.codec : Codec ProcessState where
  encode
    | .running => .str "Running"
    | .sleeping => .str "Sleeping"
    | .diskSleep => .str "DiskSleep"
    | .zombie => .str "Zombie"
    | .stopped => .str "Stopped"
    | .tracingStop => .str "TracingStop"
    | .dead => .str "Dead"
    | .idle => .str "Idle"
    | .unknown c => .obj [("Unknown", Codec.char.encode c)]
  decode reread v := do
    let (name, content) ← v.variant
    if name = "Unknown" then return .unknown (← Codec.char.decode reread (← content))
    -- The other variants carry nothing.
    if !content.all Json.isNull then none else
    match name with
    | "Running" => some .running
    | "Sleeping" => some .sleeping
    | "DiskSleep" => some .diskSleep
    | "Zombie" => some .zombie
    | "Stopped" => some .stopped
    | "TracingStop" => some .tracingStop
    | "Dead" => some .dead
    | "Idle" => some .idle
    | _ => none
  missing := none
  back _ state := state
  decode_encode reread state := by
    cases state with
    | unknown c => simp [Json.variant, Codec.char.decode_encode, show Codec.char.back reread c = c from rfl]
    | _ => rfl

def CgroupVersion.codec : Codec CgroupVersion where
  encode
    | .v1 => .str "V1"
    | .v2 => .str "V2"
  decode _ v := do
    let (name, content) ← v.variant
    if !content.all Json.isNull then none else
    match name with
    | "V1" => some .v1
    | "V2" => some .v2
    | _ => none
  missing := none
  back _ version := version
  decode_encode _ version := by cases version <;> rfl

def CpuStats.record : Record CpuStats :=
  (Record.field "utime_ticks" .u64 (.field "stime_ticks" .u64 (.field "percent" .f64
    (.field "voluntary_ctxt_switches" .u64 (.field "nonvoluntary_ctxt_switches" .u64 .nil))))).pack
    (fun (utime, stime, percent, voluntary, nonvoluntary, _) =>
      ⟨utime, stime, percent, voluntary, nonvoluntary⟩)
    (fun c => (c.utimeTicks, c.stimeTicks, c.percent, c.voluntaryCtxtSwitches, c.nonvoluntaryCtxtSwitches, ()))

def MemoryBreakdown.record : Record MemoryBreakdown :=
  (Record.field "rss" .u64 (.field "vsz" .u64 (.field "anonymous" .u64 (.field "file_backed" .u64
    (.field "shared" .u64 (.field "private" .u64 (.field "swap" .u64 .nil))))))).pack
    (fun (rss, vsz, anonymous, fileBacked, shared, priv, swap, _) =>
      ⟨rss, vsz, anonymous, fileBacked, shared, priv, swap⟩)
    (fun m => (m.rss, m.vsz, m.anonymous, m.fileBacked, m.shared, m.priv, m.swap, ()))

def CgroupInfo.record : Record CgroupInfo :=
  (Record.field "version" CgroupVersion.codec (.field "path" .string
    (.field "controllers" (.list .string) .nil))).pack
    (fun (version, path, controllers, _) => ⟨version, path, controllers⟩)
    (fun c => (c.version, c.path, c.controllers, ()))

def ProcessSnapshot.record : Record ProcessSnapshot :=
  (Record.field "pid" .i32 (.field "ppid" .i32 (.field "pgid" .i32 (.field "sid" .i32
    (.field "name" .string (.field "cmdline" (.list .string)
    (.field "exe" (.option .string fun _ => rfl) (.field "state" ProcessState.codec
    (.field "uid" .u32 (.field "gid" .u32 (.field "start_time" .u64
    (.field "cpu" CpuStats.record.codec (.field "memory" MemoryBreakdown.record.codec
    (.field "thread_count" .u32 (.field "open_file_count" .u32
    (.field "cgroup" (.option CgroupInfo.record.codec fun _ => rfl) .nil)))))))))))))))).pack
    (fun (pid, ppid, pgid, sid, name, cmdline, exe, state, uid, gid, startTime, cpu, memory, threadCount,
        openFileCount, cgroup, _) =>
      ⟨pid, ppid, pgid, sid, name, cmdline, exe, state, uid, gid, startTime, cpu, memory, threadCount,
        openFileCount, cgroup⟩)
    (fun s => (s.pid, s.ppid, s.pgid, s.sid, s.name, s.cmdline, s.exe, s.state, s.uid, s.gid, s.startTime,
      s.cpu, s.memory, s.threadCount, s.openFileCount, s.cgroup, ()))

@[simp] theorem CgroupInfo.record_back (reread : FloatReader) (c : CgroupInfo) :
    CgroupInfo.record.back reread c = c :=
  congrArg (CgroupInfo.mk c.version c.path) (List.map_id c.controllers)

/-- Only the CPU rate is a float. -/
def ProcessSnapshot.readBack (reread : FloatReader) (s : ProcessSnapshot) : ProcessSnapshot :=
  s.withPercent (reread s.cpu.percent)

namespace ProcessSnapshot
variable (reread : FloatReader) (s : ProcessSnapshot)

@[simp] theorem readBack_pid : (s.readBack reread).pid = s.pid := rfl

@[simp] theorem readBack_startTime : (s.readBack reread).startTime = s.startTime := rfl

end ProcessSnapshot

@[simp] theorem ProcessSnapshot.record_back (reread : FloatReader) (s : ProcessSnapshot) :
    ProcessSnapshot.record.back reread s = s.readBack reread := by
  obtain ⟨pid, ppid, pgid, sid, name, cmdline, exe, state, uid, gid, startTime, cpu, memory, threadCount,
    openFileCount, cgroup⟩ := s
  have hcmdline : (Codec.list .string).back reread cmdline = cmdline := List.map_id cmdline
  have hexe : (Codec.option .string fun _ => rfl).back reread exe = exe := congrFun Option.map_id exe
  have hcgroup : (Codec.option CgroupInfo.record.codec fun _ => rfl).back reread cgroup = cgroup :=
    (Option.map_congr fun c _ => CgroupInfo.record_back reread c).trans (congrFun Option.map_id cgroup)
  change ProcessSnapshot.mk pid ppid pgid sid name ((Codec.list .string).back reread cmdline)
    ((Codec.option .string fun _ => rfl).back reread exe) state uid gid startTime
    (CpuStats.record.back reread cpu) (MemoryBreakdown.record.back reread memory) threadCount openFileCount
    ((Codec.option CgroupInfo.record.codec fun _ => rfl).back reread cgroup) = _
  rw [hcmdline, hexe, hcgroup]
  rfl

namespace TimelineEventKind

def exitedRecord : Record (Option String) :=
  (Record.field "exit_reason" (.option .string fun _ => rfl) .nil).pack (·.1) (·, ())

def growthRecord : Record (ℚ × UInt64) :=
  (Record.field "percent_growth" .f64 (.field "window_secs" .u64 .nil)).pack
    (fun (percent, window, _) => (percent, window)) (fun (percent, window) => (percent, window, ()))

def newChildRecord : Record Pid :=
  (Record.field "child_pid" .i32 .nil).pack (·.1) (·, ())

def newConnectionRecord : Record String :=
  (Record.field "remote_addr" .string .nil).pack (·.1) (·, ())

/-- Only the growth is a float. -/
def readBack (reread : FloatReader) : TimelineEventKind → TimelineEventKind
  | .memoryGrowthThresholdCrossed percent window => .memoryGrowthThresholdCrossed (reread percent) window
  | kind => kind

def codec : Codec TimelineEventKind where
  encode
    | .started => .str "Started"
    | .exited reason => .obj [("Exited", exitedRecord.encode reason)]
    | .memoryGrowthThresholdCrossed percent window =>
      .obj [("MemoryGrowthThresholdCrossed", growthRecord.encode (percent, window))]
    | .newChild child => .obj [("NewChild", newChildRecord.encode child)]
    | .newConnection addr => .obj [("NewConnection", newConnectionRecord.encode addr)]
  decode reread v := do
    let (name, content) ← v.variant
    match name with
    | "Started" => if content.all Json.isNull then some .started else none
    | "Exited" => return .exited (← exitedRecord.decode reread (← content))
    | "MemoryGrowthThresholdCrossed" =>
      let (percent, window) ← growthRecord.decode reread (← content)
      return .memoryGrowthThresholdCrossed percent window
    | "NewChild" => return .newChild (← newChildRecord.decode reread (← content))
    | "NewConnection" => return .newConnection (← newConnectionRecord.decode reread (← content))
    | _ => none
  missing := none
  back := readBack
  decode_encode reread kind := by
    cases kind with
    | started => rfl
    | exited reason =>
      have hback : exitedRecord.back reread reason = reason := congrFun Option.map_id reason
      simp [Json.variant, Record.decode_encode, readBack, hback]
    | memoryGrowthThresholdCrossed percent window =>
      have hback : growthRecord.back reread (percent, window) = (reread percent, window) := rfl
      simp [Json.variant, Record.decode_encode, readBack, hback]
    | newChild child =>
      have hback : newChildRecord.back reread child = child := rfl
      simp [Json.variant, Record.decode_encode, readBack, hback]
    | newConnection addr =>
      have hback : newConnectionRecord.back reread addr = addr := rfl
      simp [Json.variant, Record.decode_encode, readBack, hback]

end TimelineEventKind

/-- The fields of an event from its time on. -/
def TimelineEvent.lastFields : Record (Int64 × TimelineEventKind × String × Unit) :=
  .field "at" .i64 (.field "kind" TimelineEventKind.codec (.field "description" .string .nil))

def TimelineEvent.record : Record TimelineEvent :=
  (Record.field "pid" .i32 (.field "start_time" .u64 TimelineEvent.lastFields)).pack
    (fun (pid, startTime, observedAt, kind, description, _) => ⟨pid, startTime, observedAt, kind, description⟩)
    (fun e => (e.pid, e.startTime, e.observedAt, e.kind, e.description, ()))

def TimelineEvent.readBack (reread : FloatReader) (e : TimelineEvent) : TimelineEvent :=
  { e with kind := e.kind.readBack reread }

namespace TimelineEvent
variable (reread : FloatReader) (e : TimelineEvent)

@[simp] theorem readBack_pid : (e.readBack reread).pid = e.pid := rfl

@[simp] theorem readBack_startTime : (e.readBack reread).startTime = e.startTime := rfl

@[simp] theorem readBack_observedAt : (e.readBack reread).observedAt = e.observedAt := rfl

end TimelineEvent

@[simp] theorem TimelineEvent.record_back (reread : FloatReader) (e : TimelineEvent) :
    TimelineEvent.record.back reread e = e.readBack reread := rfl

/-- The JSON of an event says which generation it is about, or it is not one. -/
theorem TimelineEvent.record_requires_startTime : TimelineEvent.record.Requires "start_time" :=
  .pack (.field (Record.requires_field rfl))

end ProcessExplorer.Model
