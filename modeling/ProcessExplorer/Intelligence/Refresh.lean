import Mathlib.Data.Finset.Dedup
import Mathlib.Data.Finset.Insert
import ProcessExplorer.Library.Binary64
import ProcessExplorer.Library.HashTable
import ProcessExplorer.Library.RingBuffer
import ProcessExplorer.Telemetry.Adapter

/-! One refresh: what ProcessIntelligence keeps, and how refresh_at updates it. -/
namespace ProcessExplorer.Intelligence
open Library Model Telemetry

/-- Clock ticks per second. -/
def clkTck : ℚ := 100
def defaultGrowthWindowSecs : Int64 := 3600
def defaultGrowthThresholdPercent : ℚ := 50
def defaultHistoryCapacity : Nat := 120
def defaultTimelineCapacity : Nat := 1000

/-- The pair that survives pid reuse: the kernel recycles pids, never a generation. -/
abbrev HistoryKey := Pid × UInt64
abbrev Sample := Int64 × ProcessSnapshot

structure ProcessIntelligence where
  current : HashMap Pid ProcessSnapshot
  history : HashMap HistoryKey (List Sample)
  connectionsSeen : HashMap HistoryKey (Finset String)
  timeline : List TimelineEvent
  /-- Generations that exited on the previous tick, kept for one more call. -/
  staleKeys : List HistoryKey
  historyCapacity : Nat
  timelineCapacity : Nat

def ProcessIntelligence.new : ProcessIntelligence where
  current := ∅
  history := ∅
  connectionsSeen := ∅
  timeline := []
  staleKeys := []
  historyCapacity := defaultHistoryCapacity
  timelineCapacity := defaultTimelineCapacity

/-- One call of refresh_at: its time, the adapter's answers, and the orders in
which the hash sets happen to be visited. -/
structure Tick where
  now : Int64
  adapter : TelemetryAdapter
  addrOrder : Pid → Visit String
  exitOrder : Visit HistoryKey
  staleOrder : Visit HistoryKey

/-- A call that visits every hash set as it is stored. -/
def Tick.stored (now : Int64) (adapter : TelemetryAdapter) : Tick where
  now := now
  adapter := adapter
  addrOrder _ := .stored
  exitOrder := .stored
  staleOrder := .stored

def cpuPercent (prevTicks currTicks : UInt64) (elapsedSecs : ℚ) : ℚ :=
  if elapsedSecs ≤ 0 then 0
  else
    let deltaTicks := toDouble (currTicks.toNat - prevTicks.toNat : Nat)
    toDouble (toDouble (toDouble (deltaTicks / clkTck) / elapsedSecs) * 100)

/-- One decimal place, ties to even, as the format specification .1 prints it. -/
def oneDecimal (q : ℚ) : String :=
  let tenths := (roundEven (|q| * 10)).toNat
  (if q < 0 then "-" else "") ++ toString (tenths / 10) ++ "." ++ toString (tenths % 10)

def previouslyLive (current : HashMap Pid ProcessSnapshot) (pid : Pid) (snap : ProcessSnapshot) : Bool :=
  (current.lookup pid).map (·.startTime) == some snap.startTime

def startedEvent (now : Int64) (pid : Pid) (snap : ProcessSnapshot) : TimelineEvent where
  pid := pid
  startTime := snap.startTime
  observedAt := now
  kind := .started
  description := snap.name ++ " (" ++ toString pid ++ ") started"

/-- The table under construction is asked first, the previous one second. -/
def parentStartTime (current newCurrent : HashMap Pid ProcessSnapshot) (ppid : Pid) : Option UInt64 :=
  ((newCurrent.lookup ppid).or (current.lookup ppid)).map (·.startTime)

def newChildEvent (now : Int64) (pid : Pid) (snap : ProcessSnapshot) (parent : UInt64) : TimelineEvent where
  pid := snap.ppid
  startTime := parent
  observedAt := now
  kind := .newChild pid
  description := "new child process " ++ toString pid ++ " (" ++ snap.name ++ ")"

def startEvents (current newCurrent : HashMap Pid ProcessSnapshot) (now : Int64) (pid : Pid)
    (snap : ProcessSnapshot) : List TimelineEvent :=
  if previouslyLive current pid snap then []
  else startedEvent now pid snap ::
    ((parentStartTime current newCurrent snap.ppid).map (newChildEvent now pid snap)).toList

/-- The rate since the newest entry; a generation without history keeps what was reported. -/
def rateSnapshot (now : Int64) (hist : Option (List Sample)) (snap : ProcessSnapshot) : ProcessSnapshot :=
  match hist.bind List.getLast? with
  | some (prevAt, prevSnap) =>
    snap.withPercent
      (cpuPercent prevSnap.cpu.totalTicks snap.cpu.totalTicks (toDouble (now - prevAt).toInt))
  | none => snap

/-- The newest entry that is at least one growth window old. -/
def growthBaseline (now : Int64) (hist : List Sample) : Option Sample :=
  hist.reverse.find? fun entry => defaultGrowthWindowSecs ≤ now - entry.1

def growthPercent (baseline snap : ProcessSnapshot) : ℚ :=
  let before := toDouble baseline.memory.rss.toNat
  toDouble (toDouble (toDouble (toDouble snap.memory.rss.toNat - before) / before) * 100)

def growthEvent (now : Int64) (pid : Pid) (snap : ProcessSnapshot) (growth : ℚ) : TimelineEvent where
  pid := pid
  startTime := snap.startTime
  observedAt := now
  kind := .memoryGrowthThresholdCrossed growth defaultGrowthWindowSecs.toUInt64
  description := snap.name ++ " (" ++ toString pid ++ ") RSS grew " ++ oneDecimal growth ++
    "% over the last " ++ toString (defaultGrowthWindowSecs / 60) ++ "m"

def growthEvents (now : Int64) (pid : Pid) (hist : Option (List Sample)) (snap : ProcessSnapshot) :
    List TimelineEvent :=
  match hist.bind (growthBaseline now) with
  | some (_, baseline) =>
    if 0 < baseline.memory.rss ∧ defaultGrowthThresholdPercent ≤ growthPercent baseline snap then
      [growthEvent now pid snap (growthPercent baseline snap)]
    else []
  | none => []

/-- The non-empty remote addresses of one read, without repetition. -/
def remoteAddrs (conns : List NetworkConnection) : List String :=
  ((conns.map (·.remoteAddr)).filter (· ≠ "")).dedup

def connectionEvent (now : Int64) (pid : Pid) (snap : ProcessSnapshot) (addr : String) :
    TimelineEvent where
  pid := pid
  startTime := snap.startTime
  observedAt := now
  kind := .newConnection addr
  description := snap.name ++ " (" ++ toString pid ++ ") connected to " ++ addr

def connectionEvents (order : Visit String) (now : Int64) (pid : Pid) (snap : ProcessSnapshot)
    (conns : Result (List NetworkConnection)) (seen : Option (Finset String)) : List TimelineEvent :=
  match conns with
  | .ok conns =>
    (order.run ((remoteAddrs conns).filter (· ∉ seen.getD ∅))).map (connectionEvent now pid snap)
  | .error _ => []

/-- A successful read replaces the set; a failed one leaves the entry as it is. -/
def nextSeen (conns : Result (List NetworkConnection)) (seen : Option (Finset String)) :
    Option (Finset String) :=
  match conns with
  | .ok conns => some (remoteAddrs conns).toFinset
  | .error _ => seen

def pushSample (capacity : Nat) (hist : Option (List Sample)) (sample : Sample) : List Sample :=
  trimFront capacity (hist.getD [] ++ [sample])

/-- The maps and locals that the loop of refresh_at mutates. -/
structure Pass where
  history : HashMap HistoryKey (List Sample)
  connectionsSeen : HashMap HistoryKey (Finset String)
  newCurrent : HashMap Pid ProcessSnapshot
  newKeys : Finset HistoryKey
  pendingEvents : List TimelineEvent

/-- One iteration of the loop; a pid that cannot be read is skipped. -/
def observe (s : ProcessIntelligence) (t : Tick) (p : Pass) (pid : Pid) : Pass :=
  match t.adapter.process pid with
  | .error _ => p
  | .ok read =>
    let key := (pid, read.startTime)
    let hist := p.history.lookup key
    let seen := p.connectionsSeen.lookup key
    let snap := rateSnapshot t.now hist read
    let conns := t.adapter.connections pid
    { history := p.history.insert key (pushSample s.historyCapacity hist (t.now, snap))
      connectionsSeen := match nextSeen conns seen with
        | some addrs => p.connectionsSeen.insert key addrs
        | none => p.connectionsSeen
      newCurrent := p.newCurrent.insert pid snap
      newKeys := insert key p.newKeys
      pendingEvents := p.pendingEvents ++ startEvents s.current p.newCurrent t.now pid read ++
        growthEvents t.now pid hist snap ++
        connectionEvents (t.addrOrder pid) t.now pid snap conns seen }

def exitedEvent (now : Int64) (key : HistoryKey) : TimelineEvent where
  pid := key.1
  startTime := key.2
  observedAt := now
  kind := .exited none
  description := "process " ++ toString key.1 ++ " exited"

namespace ProcessIntelligence

/-- The first statement of refresh_at, made before its only fallible one. -/
def drainStale (s : ProcessIntelligence) : ProcessIntelligence :=
  { s with
    history := HashMap.eraseAll s.history s.staleKeys
    connectionsSeen := HashMap.eraseAll s.connectionsSeen s.staleKeys
    staleKeys := [] }

def oldKeys (s : ProcessIntelligence) : List HistoryKey :=
  s.current.entries.map fun entry => (entry.1, entry.2.startTime)

def passStart (s : ProcessIntelligence) : Pass :=
  ⟨s.history, s.connectionsSeen, ∅, ∅, []⟩

/-- The whole loop, from the state in which the stale keys are gone. -/
def scan (s : ProcessIntelligence) (t : Tick) (pids : List Pid) : Pass :=
  pids.foldl (observe s t) s.passStart

/-- Generations of the previous table that the loop has not seen. -/
def exitedKeys (s : ProcessIntelligence) (p : Pass) : List HistoryKey :=
  s.oldKeys.filter (· ∉ p.newKeys)

/-- The events of one successful pass, in the order they are appended. -/
def passEvents (s : ProcessIntelligence) (t : Tick) (p : Pass) : List TimelineEvent :=
  p.pendingEvents ++ (t.exitOrder.run (s.exitedKeys p)).map (exitedEvent t.now)

def commit (s : ProcessIntelligence) (t : Tick) (p : Pass) : ProcessIntelligence :=
  { s with
    current := p.newCurrent
    history := p.history
    connectionsSeen := p.connectionsSeen
    timeline := trimFront s.timelineCapacity (s.timeline ++ s.passEvents t p)
    staleKeys := t.staleOrder.run (s.exitedKeys p) }

def refreshAt (s : ProcessIntelligence) (t : Tick) : ProcessIntelligence × Result Unit :=
  let s := s.drainStale
  match t.adapter.listPids with
  | .error e => (s, .error e)
  | .ok pids => (s.commit t (s.scan t pids), .ok ())

/-- What one call appends to the timeline, before the capacity trim. -/
def appended (s : ProcessIntelligence) (t : Tick) : List TimelineEvent :=
  match t.adapter.listPids with
  | .error _ => []
  | .ok pids => s.drainStale.passEvents t (s.drainStale.scan t pids)

end ProcessIntelligence
end ProcessExplorer.Intelligence
