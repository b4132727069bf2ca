import ProcessExplorer.History.Queries

/-! What becomes of the events of a database that was written before events had a start time. -/
namespace ProcessExplorer.History
open Library Model Daemon

/-- An event as the old schema had it. -/
structure LegacyEvent where
  pid : Pid
  observedAt : Int64
  kind : TimelineEventKind
  description : String

namespace LegacyEvent

def record : Record LegacyEvent :=
  (Record.field "pid" .i32 TimelineEvent.lastFields).pack
    (fun (pid, observedAt, kind, description, _) => ⟨pid, observedAt, kind, description⟩)
    (fun e => (e.pid, e.observedAt, e.kind, e.description, ()))

def row (e : LegacyEvent) : LegacyEventRow where
  pid := e.pid.toInt64
  observedAt := e.observedAt
  eventJson := record.encode e

/-- The event it should become. -/
def upgraded (e : LegacyEvent) : TimelineEvent where
  pid := e.pid
  startTime := 0
  observedAt := e.observedAt
  kind := e.kind
  description := e.description

end LegacyEvent

def legacyDatabase (snapshots : Option (List SnapshotRow)) (legacy : List LegacyEvent) : Database where
  snapshots := snapshots
  timelineEvents := some (.legacy (legacy.map LegacyEvent.row))

/-- The legacy events that the calls since the migration leave, and those they record as they are read back. -/
def eventsSinceMigration (reread : FloatReader) (legacy : List LegacyEvent) (calls : List HistoryCall) :
    List TimelineEvent :=
  (legacy.map LegacyEvent.upgraded).filter (fun e => keeps calls e.observedAt) ++
    (eventsKept calls).map (·.readBack reread)

/-- A migrated row gets its column, but its JSON still lacks the field. -/
theorem readEvent_migrated (reread : FloatReader) (e : LegacyEvent) :
    HistoryStore.readEvent reread (addStartTime e.row) = .error .json := by
  have hlookup : (LegacyEvent.record.names.zip (LegacyEvent.record.write e)).lookup "start_time" = none := rfl
  rw [HistoryStore.readEvent, HistoryStore.fromJson, addStartTime, LegacyEvent.row, Record.encode,
    Record.decode_eq_none TimelineEvent.record_requires_startTime reread hlookup]

/-- A query over migrated rows and current ones answers exactly when it asks for none of the former. -/
theorem lists_migrated_iff {reread : FloatReader} {asked : EventRow → Prop} [DecidablePred asked] {wanted : TimelineEvent → Prop}
    [DecidablePred wanted] (hlegacy : ∀ e : LegacyEvent, asked (addStartTime e.row) ↔ wanted e.upgraded)
    (hasked : ∀ e, asked (eventRow e) ↔ wanted (e.readBack reread)) (order : OrderBy EventRow Int64)
    (legacy : List LegacyEvent) (events : List TimelineEvent) :
    Lists TimelineEvent.observedAt
        ((legacy.map LegacyEvent.upgraded ++ events.map (·.readBack reread)).filter fun e => wanted e)
        ((order.run (·.observedAt) ((legacy.map (fun e => addStartTime e.row) ++
          events.map eventRow).filter fun row => asked row)).mapM (HistoryStore.readEvent reread)) ↔
      ∀ e ∈ legacy, ¬ wanted e.upgraded := by
  constructor
  · intro hlists e he hwanted
    have hrow : addStartTime e.row ∈ (legacy.map (fun e => addStartTime e.row) ++
        events.map eventRow).filter fun row => asked row :=
      List.mem_filter.mpr ⟨List.mem_append_left _ (List.mem_map_of_mem he), by simpa [hlegacy] using hwanted⟩
    exact order.not_lists hrow (readEvent_migrated reread e) _ hlists
  · intro hnone
    have hrows : (legacy.map fun e => addStartTime e.row).filter (fun row => asked row) = [] := by
      apply List.filter_eq_nil_iff.mpr
      intro row hrow
      obtain ⟨e, he, rfl⟩ := List.mem_map.mp hrow
      simpa [hlegacy] using hnone e he
    have hevents : (legacy.map LegacyEvent.upgraded).filter (fun e => wanted e) = [] := by
      apply List.filter_eq_nil_iff.mpr
      intro event hevent
      obtain ⟨e, he, rfl⟩ := List.mem_map.mp hevent
      simpa using hnone e he
    rw [List.filter_append, List.filter_append, hrows, hevents, List.nil_append, List.nil_append]
    apply order.lists_filter (readEvent_eventRow reread) fun _ => rfl
    intro e
    exact decide_eq_decide.mpr (hasked e)

theorem timelineEvents_migrated (snapshots : Option (List SnapshotRow)) (legacy : List LegacyEvent)
    (calls : List HistoryCall) :
    ((HistoryStore.migrate (legacyDatabase snapshots legacy)).after calls).timelineEvents =
      (legacy.filter fun e => keeps calls e.observedAt).map (fun e => addStartTime e.row) ++
        (eventsKept calls).map eventRow := by
  rw [HistoryStore.after_eq]
  simp only [HistoryStore.migrate, legacyDatabase, Option.getD_some, EventTable.withStartTime, List.map_map,
    List.filter_map]
  rfl

/-- After a migration, and whatever calls came since, the queries for events answer with the legacy events
and the new ones, as they are read back, exactly when they ask for no legacy event. -/
theorem legacy_events_listed_iff (reread : FloatReader) (snapshots : Option (List SnapshotRow))
    (legacy : List LegacyEvent) (calls : List HistoryCall) (order : OrderBy EventRow Int64) (pid : Pid)
    (startTime : UInt64) (since : Int64) :
    let store := (HistoryStore.migrate (legacyDatabase snapshots legacy)).after calls
    let asked := ∃ e ∈ legacy, keeps calls e.observedAt ∧ e.pid = pid ∧ since ≤ e.observedAt
    (Lists TimelineEvent.observedAt
      ((eventsSinceMigration reread legacy calls).filter fun e => e.pid = pid ∧ since ≤ e.observedAt)
      (store.eventsFor reread pid since order) ↔ ¬ asked) ∧
    (Lists TimelineEvent.observedAt
      ((eventsSinceMigration reread legacy calls).filter fun e =>
        e.pid = pid ∧ e.startTime = startTime ∧ since ≤ e.observedAt)
      (store.eventsForGeneration reread pid startTime since order) ↔ ¬ (startTime = 0 ∧ asked)) := by
  intro store asked
  have hevents : eventsSinceMigration reread legacy calls =
      (legacy.filter fun e => keeps calls e.observedAt).map LegacyEvent.upgraded ++
        (eventsKept calls).map (·.readBack reread) := by
    rw [eventsSinceMigration, List.filter_map]
    rfl
  rw [hevents, HistoryStore.eventsFor, HistoryStore.eventsForGeneration, timelineEvents_migrated]
  constructor
  · rw [lists_migrated_iff]
    · simp [asked, LegacyEvent.upgraded]
    · intro e
      simp [addStartTime, LegacyEvent.row, LegacyEvent.upgraded, toInt64_pid_inj]
    · simp [eventRow, toInt64_pid_inj]
  · have hzero : (0 : Int64) = startTime.toInt64 ↔ (0 : UInt64) = startTime := toInt64_startTime_inj (a := 0)
    rw [lists_migrated_iff]
    · simp only [asked, List.mem_filter, LegacyEvent.upgraded]
      constructor
      · rintro hnone ⟨rfl, e, he, hkept, hpid, hsince⟩
        exact hnone e ⟨he, hkept⟩ ⟨hpid, rfl, hsince⟩
      · rintro hnone e ⟨he, hkept⟩ ⟨hpid, rfl, hsince⟩
        exact hnone ⟨rfl, e, he, hkept, hpid, hsince⟩
    · intro e
      simp [addStartTime, LegacyEvent.row, LegacyEvent.upgraded, toInt64_pid_inj, hzero]
    · simp [eventRow, toInt64_pid_inj, toInt64_startTime_inj]

def insertionOrder : OrderBy EventRow Int64 := .insertion Int64.le_total fun _ _ _ => Int64.le_trans

/-- One event of the old schema, and no query for its pid succeeds any more. -/
theorem legacy_event_fails_queries :
    let store := HistoryStore.migrate (legacyDatabase none [⟨7, 500, .started, "sleep (7) started"⟩])
    store.eventsFor id 7 0 insertionOrder = .error .json ∧
      store.eventsForGeneration id 7 0 0 insertionOrder = .error .json := by
  exact ⟨rfl, rfl⟩

end ProcessExplorer.History
