import ProcessExplorer.Daemon.HistoryCall
import ProcessExplorer.Library.OrderBy
import ProcessExplorer.Model.Serde

/-! The history store: two tables, the statements that change them, and the queries. -/
namespace ProcessExplorer.History
open Library Model Daemon

/-- A row of snapshots; SQLite keeps every integer in 64 signed bits. -/
structure SnapshotRow where
  pid : Int64
  startTime : Int64
  sampledAt : Int64
  name : String
  snapshotJson : Json

structure EventRow where
  pid : Int64
  startTime : Int64
  observedAt : Int64
  eventJson : Json

/-- A row of timeline_events before it had a column for the start time. -/
structure LegacyEventRow where
  pid : Int64
  observedAt : Int64
  eventJson : Json

/-- The table as it is found; column_exists tells the two schemas apart. -/
inductive EventTable where
  | legacy (rows : List LegacyEventRow)
  | current (rows : List EventRow)

/-- What a database file holds before it is migrated. -/
structure Database where
  snapshots : Option (List SnapshotRow)
  timelineEvents : Option EventTable

/-- A database with the current schema. -/
structure HistoryStore where
  snapshots : List SnapshotRow
  timelineEvents : List EventRow

/-- ALTER TABLE ADD COLUMN start_time INTEGER NOT NULL DEFAULT 0. -/
def addStartTime (row : LegacyEventRow) : EventRow where
  pid := row.pid
  startTime := 0
  observedAt := row.observedAt
  eventJson := row.eventJson

def EventTable.withStartTime : EventTable → List EventRow
  | .legacy rows => rows.map addStartTime
  | .current rows => rows

namespace HistoryStore

/-- Tables that are missing are created; one that lacks the column gets it. -/
def migrate (db : Database) : HistoryStore where
  snapshots := db.snapshots.getD []
  timelineEvents := (db.timelineEvents.getD (.current [])).withStartTime

def openInMemory : HistoryStore := migrate ⟨none, none⟩

def recordSnapshot (store : HistoryStore) (snapshot : ProcessSnapshot) (sampledAt : Int64) : HistoryStore :=
  { store with snapshots := store.snapshots ++ [{
      pid := snapshot.pid.toInt64
      startTime := snapshot.startTime.toInt64
      sampledAt := sampledAt
      name := snapshot.name
      snapshotJson := ProcessSnapshot.record.encode snapshot }] }

def recordEvent (store : HistoryStore) (event : TimelineEvent) : HistoryStore :=
  { store with timelineEvents := store.timelineEvents ++ [{
      pid := event.pid.toInt64
      startTime := event.startTime.toInt64
      observedAt := event.observedAt
      eventJson := TimelineEvent.record.encode event }] }

/-- The store afterwards, and the number of rows removed. -/
def pruneOlderThan (store : HistoryStore) (cutoff : Int64) : HistoryStore × ℕ :=
  let snapshotsRemoved := store.snapshots.countP (·.sampledAt < cutoff)
  let eventsRemoved := store.timelineEvents.countP (·.observedAt < cutoff)
  ({ snapshots := store.snapshots.filter (¬ ·.sampledAt < cutoff)
     timelineEvents := store.timelineEvents.filter (¬ ·.observedAt < cutoff) },
    snapshotsRemoved + eventsRemoved)

def fromJson {α : Type} (decode : Json → Option α) (json : Json) : Except HistoryError α :=
  match decode json with
  | some a => .ok a
  | none => .error .json

section Queries
variable (reread : FloatReader)

def readSnapshot (row : SnapshotRow) : Except HistoryError (Int64 × ProcessSnapshot) := do
  let snapshot ← fromJson (ProcessSnapshot.record.decode reread) row.snapshotJson
  return (row.sampledAt, snapshot)

def readEvent (row : EventRow) : Except HistoryError TimelineEvent :=
  fromJson (TimelineEvent.record.decode reread) row.eventJson

variable (store : HistoryStore) (pid : Pid) (startTime : UInt64) (since : Int64)

def snapshotsFor (order : OrderBy SnapshotRow Int64) : Except HistoryError (List (Int64 × ProcessSnapshot)) :=
  (order.run (·.sampledAt) (store.snapshots.filter fun row =>
    row.pid = pid.toInt64 ∧ since ≤ row.sampledAt)).mapM (readSnapshot reread)

def snapshotsForGeneration (order : OrderBy SnapshotRow Int64) :
    Except HistoryError (List (Int64 × ProcessSnapshot)) :=
  (order.run (·.sampledAt) (store.snapshots.filter fun row =>
    row.pid = pid.toInt64 ∧ row.startTime = startTime.toInt64 ∧ since ≤ row.sampledAt)).mapM (readSnapshot reread)

def eventsFor (order : OrderBy EventRow Int64) : Except HistoryError (List TimelineEvent) :=
  (order.run (·.observedAt) (store.timelineEvents.filter fun row =>
    row.pid = pid.toInt64 ∧ since ≤ row.observedAt)).mapM (readEvent reread)

def eventsForGeneration (order : OrderBy EventRow Int64) : Except HistoryError (List TimelineEvent) :=
  (order.run (·.observedAt) (store.timelineEvents.filter fun row =>
    row.pid = pid.toInt64 ∧ row.startTime = startTime.toInt64 ∧ since ≤ row.observedAt)).mapM (readEvent reread)

end Queries

/-- One successful call that changes the store. -/
def apply (store : HistoryStore) : HistoryCall → HistoryStore
  | .recordSnapshot snapshot sampledAt => store.recordSnapshot snapshot sampledAt
  | .recordEvent event => store.recordEvent event
  | .pruneOlderThan cutoff => (store.pruneOlderThan cutoff).1

/-- The store after these calls, oldest first. -/
def after (store : HistoryStore) (calls : List HistoryCall) : HistoryStore := calls.foldl apply store

end HistoryStore
end ProcessExplorer.History
