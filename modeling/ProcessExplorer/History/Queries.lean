import Mathlib.Data.List.Induction
import ProcessExplorer.History.Store

/-! What the queries of the store answer after any sequence of calls. -/
namespace ProcessExplorer.History
open Library Model Daemon

/-- The cutoffs of the prunes among the calls. -/
def cutoffs (calls : List HistoryCall) : List Int64 :=
  calls.filterMap fun
    | .pruneOlderThan cutoff => some cutoff
    | _ => none

/-- No prune among the calls removes what has this time. -/
def keeps (calls : List HistoryCall) (time : Int64) : Bool :=
  (cutoffs calls).all fun cutoff => ¬ time < cutoff

/-- What the calls record, as far as no later prune removes it. -/
def survivors {β : Type} (item : HistoryCall → Option β) (time : β → Int64) : List HistoryCall → List β
  | [] => []
  | call :: later => (item call).toList.filter (fun x => keeps later (time x)) ++ survivors item time later

def snapshotOf : HistoryCall → Option (Int64 × ProcessSnapshot)
  | .recordSnapshot snapshot sampledAt => some (sampledAt, snapshot)
  | _ => none

def eventOf : HistoryCall → Option TimelineEvent
  | .recordEvent event => some event
  | _ => none

abbrev snapshotsKept (calls : List HistoryCall) : List (Int64 × ProcessSnapshot) :=
  survivors snapshotOf Prod.fst calls

abbrev eventsKept (calls : List HistoryCall) : List TimelineEvent :=
  survivors eventOf TimelineEvent.observedAt calls

def snapshotRow (x : Int64 × ProcessSnapshot) : SnapshotRow where
  pid := x.2.pid.toInt64
  startTime := x.2.startTime.toInt64
  sampledAt := x.1
  name := x.2.name
  snapshotJson := ProcessSnapshot.record.encode x.2

def eventRow (event : TimelineEvent) : EventRow where
  pid := event.pid.toInt64
  startTime := event.startTime.toInt64
  observedAt := event.observedAt
  eventJson := TimelineEvent.record.encode event

theorem keeps_concat (calls : List HistoryCall) (call : HistoryCall) (time : Int64) :
    keeps (calls ++ [call]) time = (keeps calls time && keeps [call] time) := by
  simp only [keeps, cutoffs, List.filterMap_append, List.all_append]

@[simp] theorem keeps_nil (time : Int64) : keeps [] time = true := rfl

@[simp] theorem keeps_recordSnapshot (snapshot : ProcessSnapshot) (sampledAt time : Int64) :
    keeps [.recordSnapshot snapshot sampledAt] time = true := rfl

@[simp] theorem keeps_recordEvent (event : TimelineEvent) (time : Int64) :
    keeps [.recordEvent event] time = true := rfl

@[simp] theorem keeps_pruneOlderThan (cutoff time : Int64) :
    keeps [.pruneOlderThan cutoff] time = decide (¬ time < cutoff) := Bool.and_true _

/-- One more call takes away what it does not keep, and adds what it records. -/
theorem survivors_concat {β : Type} (item : HistoryCall → Option β) (time : β → Int64)
    (calls : List HistoryCall) (call : HistoryCall) :
    survivors item time (calls ++ [call]) =
      (survivors item time calls).filter (fun x => keeps [call] (time x)) ++ (item call).toList := by
  induction calls with
  | nil => simp [survivors]
  | cons first calls ih =>
    rw [List.cons_append, survivors, survivors, ih, List.filter_append, List.filter_filter, List.append_assoc]
    simp only [keeps_concat, Bool.and_comm]

namespace HistoryStore

theorem after_concat (store : HistoryStore) (calls : List HistoryCall) (call : HistoryCall) :
    store.after (calls ++ [call]) = (store.after calls).apply call := by
  simp [after]

/-- One call takes away the rows it does not keep, and adds the row it records. -/
theorem apply_eq (store : HistoryStore) (call : HistoryCall) :
    store.apply call =
      ⟨store.snapshots.filter (fun row => keeps [call] row.sampledAt) ++
          (snapshotOf call).toList.map snapshotRow,
        store.timelineEvents.filter (fun row => keeps [call] row.observedAt) ++
          (eventOf call).toList.map eventRow⟩ := by
  cases call <;>
    simp [apply, recordSnapshot, recordEvent, pruneOlderThan, snapshotOf, eventOf, snapshotRow, eventRow]

/-- The tables hold the rows they had and those recorded since, as far as they are kept. -/
theorem after_eq (store : HistoryStore) (calls : List HistoryCall) :
    store.after calls =
      ⟨store.snapshots.filter (fun row => keeps calls row.sampledAt) ++ (snapshotsKept calls).map snapshotRow,
        store.timelineEvents.filter (fun row => keeps calls row.observedAt) ++
          (eventsKept calls).map eventRow⟩ := by
  induction calls using List.reverseRecOn with
  | nil => simp [after, survivors]
  | append_singleton calls call ih =>
    rw [after_concat, ih, apply_eq]
    simp only [snapshotsKept, eventsKept, survivors_concat, List.filter_append, List.filter_filter,
      List.filter_map, List.map_append, List.append_assoc, keeps_concat, Bool.and_comm]
    rfl

end HistoryStore

/-- A sample with its floats read back from their text. -/
def sampleReadBack (reread : FloatReader) (x : Int64 × ProcessSnapshot) : Int64 × ProcessSnapshot :=
  (x.1, x.2.readBack reread)

theorem readSnapshot_snapshotRow (reread : FloatReader) (x : Int64 × ProcessSnapshot) :
    HistoryStore.readSnapshot reread (snapshotRow x) = .ok (sampleReadBack reread x) := by
  rw [HistoryStore.readSnapshot, snapshotRow, HistoryStore.fromJson, Record.decode_encode,
    ProcessSnapshot.record_back]
  rfl

theorem readEvent_eventRow (reread : FloatReader) (event : TimelineEvent) :
    HistoryStore.readEvent reread (eventRow event) = .ok (event.readBack reread) := by
  rw [HistoryStore.readEvent, eventRow, HistoryStore.fromJson, Record.decode_encode, TimelineEvent.record_back]

section Exact
variable {reread : FloatReader} (h : ∀ q, reread q = q)
include h

/-- A parser that gives back every float gives back every sample and every event. -/
theorem map_sampleReadBack (samples : List (Int64 × ProcessSnapshot)) :
    samples.map (sampleReadBack reread) = samples :=
  (List.map_congr_left fun x _ => by
    simp [sampleReadBack, ProcessSnapshot.readBack, ProcessSnapshot.withPercent, h]).trans samples.map_id

theorem map_eventReadBack (events : List TimelineEvent) : events.map (·.readBack reread) = events :=
  (List.map_congr_left fun e _ => by
    obtain ⟨pid, startTime, observedAt, kind, description⟩ := e
    cases kind <;> simp [TimelineEvent.readBack, TimelineEventKind.readBack, h]).trans events.map_id

end Exact

/-- The columns tell pids apart, and start times over their full range. -/
theorem toInt64_pid_inj {a b : Pid} : a.toInt64 = b.toInt64 ↔ a = b := by
  constructor
  · intro h
    apply Int32.toInt_inj.mp
    rw [← Int32.toInt_toInt64 a, h, Int32.toInt_toInt64]
  · exact congrArg _

theorem toInt64_startTime_inj {a b : UInt64} : a.toInt64 = b.toInt64 ↔ a = b := by
  constructor
  · intro h
    rw [← UInt64.toUInt64_toInt64 a, h, UInt64.toUInt64_toInt64]
  · exact congrArg _

/-- The queries answer with these items: for one generation, and for a pid with all its generations. -/
structure AnswersFrom (reread : FloatReader) (store : HistoryStore) (snapshots : List (Int64 × ProcessSnapshot))
    (events : List TimelineEvent) : Prop where
  snapshots_for_generation : ∀ order pid startTime since, Lists Prod.fst
    (snapshots.filter fun x => x.2.pid = pid ∧ x.2.startTime = startTime ∧ since ≤ x.1)
    (store.snapshotsForGeneration reread pid startTime since order)
  events_for_generation : ∀ order pid startTime since, Lists TimelineEvent.observedAt
    (events.filter fun e => e.pid = pid ∧ e.startTime = startTime ∧ since ≤ e.observedAt)
    (store.eventsForGeneration reread pid startTime since order)
  snapshots_for : ∀ order pid since, Lists Prod.fst
    (snapshots.filter fun x => x.2.pid = pid ∧ since ≤ x.1) (store.snapshotsFor reread pid since order)
  events_for : ∀ order pid since, Lists TimelineEvent.observedAt
    (events.filter fun e => e.pid = pid ∧ since ≤ e.observedAt) (store.eventsFor reread pid since order)

/-- Tables that hold exactly the rows of these items answer with them, as they are read back. -/
theorem answersFrom_rows (reread : FloatReader) (snapshots : List (Int64 × ProcessSnapshot))
    (events : List TimelineEvent) :
    AnswersFrom reread ⟨snapshots.map snapshotRow, events.map eventRow⟩ (snapshots.map (sampleReadBack reread))
      (events.map (·.readBack reread)) := by
  constructor
  · intro order pid startTime since
    apply order.lists_filter (readSnapshot_snapshotRow reread) fun _ => rfl
    exact fun x => decide_eq_decide.mpr (by simp [snapshotRow, sampleReadBack, toInt64_pid_inj, toInt64_startTime_inj])
  · intro order pid startTime since
    apply order.lists_filter (readEvent_eventRow reread) fun _ => rfl
    exact fun e => decide_eq_decide.mpr (by simp [eventRow, toInt64_pid_inj, toInt64_startTime_inj])
  · intro order pid since
    apply order.lists_filter (readSnapshot_snapshotRow reread) fun _ => rfl
    exact fun x => decide_eq_decide.mpr (by simp [snapshotRow, sampleReadBack, toInt64_pid_inj])
  · intro order pid since
    apply order.lists_filter (readEvent_eventRow reread) fun _ => rfl
    exact fun e => decide_eq_decide.mpr (by simp [eventRow, toInt64_pid_inj])

theorem answersFrom_after (reread : FloatReader) (calls : List HistoryCall) :
    AnswersFrom reread (HistoryStore.openInMemory.after calls) ((snapshotsKept calls).map (sampleReadBack reread))
      ((eventsKept calls).map (·.readBack reread)) := by
  have hrows := HistoryStore.after_eq .openInMemory calls
  rw [hrows]
  exact answersFrom_rows reread _ _

/-- Filtered by a start time, the answer for a pid is the answer for that generation. -/
structure SeparatesGenerations (reread : FloatReader) (store : HistoryStore) : Prop where
  snapshots : ∀ order order' pid startTime since answer,
    store.snapshotsFor reread pid since order = .ok answer →
    Lists Prod.fst (answer.filter (·.2.startTime = startTime))
      (store.snapshotsForGeneration reread pid startTime since order')
  events : ∀ order order' pid startTime since answer,
    store.eventsFor reread pid since order = .ok answer →
    Lists TimelineEvent.observedAt (answer.filter (·.startTime = startTime))
      (store.eventsForGeneration reread pid startTime since order')

theorem AnswersFrom.separatesGenerations {reread : FloatReader} {store : HistoryStore}
    {snapshots : List (Int64 × ProcessSnapshot)} {events : List TimelineEvent}
    (h : AnswersFrom reread store snapshots events) : SeparatesGenerations reread store := by
  constructor
  · intro order order' pid startTime since answer hanswer
    apply (h.snapshots_for_generation order' pid startTime since).of_perm
    have hperm := ((h.snapshots_for order pid since).perm hanswer).filter (·.2.startTime = startTime)
    rw [List.filter_filter] at hperm
    simp only [Bool.decide_and, ← Bool.and_assoc] at hperm ⊢
    simpa only [Bool.and_comm] using hperm.symm
  · intro order order' pid startTime since answer hanswer
    apply (h.events_for_generation order' pid startTime since).of_perm
    have hperm := ((h.events_for order pid since).perm hanswer).filter (·.startTime = startTime)
    rw [List.filter_filter] at hperm
    simp only [Bool.decide_and, ← Bool.and_assoc] at hperm ⊢
    simpa only [Bool.and_comm] using hperm.symm

/-- Rows go and none come, and their number is the one returned. -/
structure CountsRemoved (store store' : HistoryStore) (removed : ℕ) : Prop where
  snapshots : store'.snapshots.Sublist store.snapshots
  timelineEvents : store'.timelineEvents.Sublist store.timelineEvents
  count : store'.snapshots.length + store'.timelineEvents.length + removed =
    store.snapshots.length + store.timelineEvents.length

theorem countsRemoved_prune (store : HistoryStore) (cutoff : Int64) :
    CountsRemoved store (store.pruneOlderThan cutoff).1 (store.pruneOlderThan cutoff).2 := by
  refine ⟨List.filter_sublist, List.filter_sublist, ?_⟩
  have hsnapshots := store.snapshots.length_eq_countP_add_countP (·.sampledAt < cutoff)
  have hevents := store.timelineEvents.length_eq_countP_add_countP (·.observedAt < cutoff)
  simp only [HistoryStore.pruneOlderThan, ← List.countP_eq_length_filter]
  simp only [decide_eq_true_eq] at hsnapshots hevents
  omega

/-- After any calls on a fresh store the queries answer, sorted by time, what was recorded and not
removed since, exactly if the JSON round trip is exact; generations stay apart, and a prune counts what it
removes. -/
theorem queries_answer_records (reread : FloatReader) (calls : List HistoryCall) :
    let store := HistoryStore.openInMemory.after calls
    ((∀ q, reread q = q) → AnswersFrom reread store (snapshotsKept calls) (eventsKept calls)) ∧
      AnswersFrom reread store ((snapshotsKept calls).map (sampleReadBack reread))
        ((eventsKept calls).map (·.readBack reread)) ∧
      SeparatesGenerations reread store ∧
      ∀ cutoff, CountsRemoved store (store.pruneOlderThan cutoff).1 (store.pruneOlderThan cutoff).2 := by
  intro store
  have hanswers := answersFrom_after reread calls
  refine ⟨fun hexact => ?_, hanswers, hanswers.separatesGenerations, countsRemoved_prune store⟩
  rwa [map_sampleReadBack hexact, map_eventReadBack hexact] at hanswers

end ProcessExplorer.History
