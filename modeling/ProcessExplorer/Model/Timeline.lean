import ProcessExplorer.Model.Process

/-! Network connections and the events that a refresh derives from two ticks. -/
namespace ProcessExplorer.Model

inductive Protocol where
  | tcp | tcp6 | udp | udp6 | unix
  deriving DecidableEq, Repr

inductive ConnectionState where
  | established | synSent | synRecv | finWait1 | finWait2 | timeWait | close | closeWait
  | lastAck | listen | closing | unknown
  deriving DecidableEq, Repr

def ConnectionState.fromProcHex (value : UInt8) : ConnectionState :=
  match value with
  | 0x01 => .established
  | 0x02 => .synSent
  | 0x03 => .synRecv
  | 0x04 => .finWait1
  | 0x05 => .finWait2
  | 0x06 => .timeWait
  | 0x07 => .close
  | 0x08 => .closeWait
  | 0x09 => .lastAck
  | 0x0A => .listen
  | 0x0B => .closing
  | _ => .unknown

structure NetworkConnection where
  protocol : Protocol
  localAddr : String
  remoteAddr : String
  state : ConnectionState
  inode : UInt64
  deriving DecidableEq

inductive TimelineEventKind where
  | started
  | exited (exitReason : Option String)
  | memoryGrowthThresholdCrossed (percentGrowth : ℚ) (windowSecs : UInt64)
  | newChild (childPid : Pid)
  | newConnection (remoteAddr : String)
  deriving DecidableEq

structure TimelineEvent where
  pid : Pid
  /-- Start time of the generation the event belongs to. -/
  startTime : UInt64
  /-- Unix seconds at which the event was observed. -/
  observedAt : Int64
  kind : TimelineEventKind
  description : String
  deriving DecidableEq

def TimelineEvent.key (e : TimelineEvent) : Pid × UInt64 := (e.pid, e.startTime)

end ProcessExplorer.Model
