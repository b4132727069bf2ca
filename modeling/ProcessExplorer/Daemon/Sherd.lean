import Mathlib.Data.List.Infix
import ProcessExplorer.Daemon.HistoryCall
import ProcessExplorer.Intelligence.Changes
import ProcessExplorer.Intelligence.TimelineLog

/-! The loop of sherd: refresh, write what is new to the history store, prune now and then. -/
namespace ProcessExplorer.Daemon
open Library Model Telemetry Intelligence

/-- One turn of the loop: the call of refresh_at, the order in which the two
tables are visited, and what the store answers. -/
structure Turn where
  tick : Tick
  treeOrder : Visit ProcessSnapshot
  nodeOrder : Visit ProcessSnapshot
  answer : HistoryCall → Except HistoryError Unit

/-- The calls that succeed, up to the first that does not. -/
def attempt (answer : HistoryCall → Except HistoryError Unit) :
    List HistoryCall → List HistoryCall × Except HistoryError Unit
  | [] => ([], .ok ())
  | call :: rest =>
    match answer call with
    | .ok () => (call :: (attempt answer rest).1, (attempt answer rest).2)
    | .error e => ([], .error e)

def persistTick (intel : ProcessIntelligence) (turn : Turn) : List HistoryCall × Except HistoryError Unit :=
  let nodes := (intel.tree turn.treeOrder).nodes.entries.map (·.2)
  attempt turn.answer
    ((turn.nodeOrder.run nodes).map (.recordSnapshot · turn.tick.now) ++
      (intel.recentTimelineEvents turn.tick.now).map .recordEvent)

/-- Saturating at both widths; no retention is shorter than a day. -/
def retentionSecs (retentionDays : UInt64) : Int64 :=
  .ofNat (min (max retentionDays.toNat 1 * 86400) (2 ^ 63 - 1))

def pruneEverySecs : Int64 := 3600

structure Sherd where
  intel : ProcessIntelligence
  lastPrune : Int64

/-- A refresh and, if it succeeded, the write of what it found. -/
def sample (intel : ProcessIntelligence) (turn : Turn) : ProcessIntelligence × List HistoryCall :=
  match intel.refreshAt turn.tick with
  | (intel, .error _) => (intel, [])
  | (intel, .ok ()) => (intel, (persistTick intel turn).1)

def prune (retention lastPrune : Int64) (turn : Turn) : Int64 × List HistoryCall :=
  let now := turn.tick.now
  if pruneEverySecs ≤ now - lastPrune then
    (now, (attempt turn.answer [.pruneOlderThan (now - retention)]).1)
  else (lastPrune, [])

/-- One turn, with the calls of the store that succeed in it. -/
def Sherd.turn (retention : Int64) (d : Sherd) (turn : Turn) : Sherd × List HistoryCall :=
  let sampled := sample d.intel turn
  let pruned := prune retention d.lastPrune turn
  (⟨sampled.1, pruned.1⟩, sampled.2 ++ pruned.2)

/-- The daemon as a machine that reads turns and emits calls of the history store. -/
def sherd (retention : Int64) : Machine Sherd Turn HistoryCall where
  step d turn := (d.turn retention turn).1
  emit d turn := (d.turn retention turn).2

/-- The events among the calls. -/
def eventsWritten (calls : List HistoryCall) : List TimelineEvent :=
  calls.filterMap fun
    | .recordEvent event => some event
    | _ => none

/-- Everything the store was asked to record in a run of the daemon. -/
abbrev storeCalls (retention start : Int64) (turns : List Turn) : List HistoryCall :=
  (sherd retention).trace ⟨.new, start⟩ turns

theorem attempt_of_ok {answer : HistoryCall → Except HistoryError Unit} (h : ∀ call, answer call = .ok ())
    (calls : List HistoryCall) : attempt answer calls = (calls, .ok ()) := by
  induction calls with
  | nil => rfl
  | cons call rest ih => simp [attempt, h, ih]

theorem eventsWritten_append (l r : List HistoryCall) :
    eventsWritten (l ++ r) = eventsWritten l ++ eventsWritten r := List.filterMap_append

theorem eventsWritten_persistTick (intel : ProcessIntelligence) {turn : Turn}
    (h : ∀ call, turn.answer call = .ok ()) :
    eventsWritten (persistTick intel turn).1 = intel.recentTimelineEvents turn.tick.now := by
  rw [persistTick, attempt_of_ok h, eventsWritten_append]
  simp [eventsWritten, List.filterMap_map]

/-- After trimming, a filter that keeps only the new part of a buffer finds its newest entries. -/
theorem filter_rtake_append {α : Type} {p : α → Bool} {n : Nat} {old new : List α}
    (hold : ∀ x ∈ old, p x = false) (hnew : ∀ x ∈ new, p x = true) :
    ((old ++ new).rtake n).filter p = new.rtake n := by
  rcases Nat.le_total n new.length with h | h
  · rw [rtake_append_of_le _ _ h]
    exact List.filter_eq_self.mpr fun x hx => hnew x (mem_of_mem_rtake hx)
  · rw [rtake_append_of_ge _ _ h, List.filter_append, rtake_of_length_le h,
      List.filter_eq_self.mpr hnew, List.filter_eq_nil_iff.mpr, List.nil_append]
    exact fun x hx => Bool.eq_false_iff.mp (hold x (mem_of_mem_rtake hx))

theorem sample_intel (intel : ProcessIntelligence) (turn : Turn) :
    (sample intel turn).1 = (intel.refreshAt turn.tick).1 := by
  rw [sample]
  split <;> simp [*]

theorem sherd_intel (retention start : Int64) (turns : List Turn) :
    ((sherd retention).run ⟨.new, start⟩ turns).intel = afterRun (turns.map Turn.tick) := by
  induction turns using List.reverseRecOn with
  | nil => rfl
  | append_singleton past turn ih =>
    rw [Machine.run_append, List.map_append, List.map_singleton, afterRun_concat, ← ih]
    exact sample_intel _ turn

theorem eventsWritten_prune (retention lastPrune : Int64) (turn : Turn) :
    eventsWritten (prune retention lastPrune turn).2 = [] := by
  unfold prune
  simp only
  split
  · rw [attempt]
    split <;> rfl
  · rfl

theorem appended_of_error {s : ProcessIntelligence} {t : Tick} {s' : ProcessIntelligence}
    {e : TelemetryError} (h : s.refreshAt t = (s', .error e)) : s.appended t = [] := by
  rw [ProcessIntelligence.refreshAt] at h
  rw [ProcessIntelligence.appended]
  split at h
  · simp [*]
  · cases (Prod.mk.inj h).2

/-- What one turn writes: the newest 1000 of the events it appends. -/
theorem eventsWritten_turn (retention : Int64) {d : Sherd} {turn : Turn} (hc : Configured d.intel)
    (hok : ∀ call, turn.answer call = .ok ())
    (hold : ∀ e ∈ d.intel.timeline, e.observedAt < turn.tick.now) :
    eventsWritten (d.turn retention turn).2 = (d.intel.appended turn.tick).rtake 1000 := by
  rw [Sherd.turn, eventsWritten_append, eventsWritten_prune, List.append_nil, sample]
  have hnew : ∀ e ∈ d.intel.appended turn.tick, decide (turn.tick.now ≤ e.observedAt) = true := by
    intro e he
    rw [appended_observedAt he]
    exact decide_eq_true (Int64.le_refl _)
  have hold' : ∀ e ∈ d.intel.timeline, decide (turn.tick.now ≤ e.observedAt) = false :=
    fun e he => decide_eq_false (Int64.not_le.mpr (hold e he))
  have htimeline := timeline_refreshAt hc turn.tick
  split
  · rename_i hr
    rw [appended_of_error hr, List.rtake_nil]
    rfl
  · rename_i intel hr
    rw [eventsWritten_persistTick _ hok, ProcessIntelligence.recentTimelineEvents]
    rw [hr] at htimeline
    rcases htimeline with ⟨h, hnil⟩ | h
    · rw [h, hnil, List.rtake_nil]
      exact List.filter_eq_nil_iff.mpr fun e he => Bool.eq_false_iff.mp (hold' e he)
    · rw [h]
      exact filter_rtake_append hold' hnew

/-- At most 1000 changes in every turn. -/
def FitsTimeline (turns : List Turn) : Prop :=
  ∀ past turn, past ++ [turn] <+: turns →
    changes (afterRun (past.map Turn.tick)) turn.tick ≤ 1000

theorem fitsTimeline_concat {past : List Turn} {turn : Turn} :
    FitsTimeline (past ++ [turn]) ↔
      FitsTimeline past ∧ changes (afterRun (past.map Turn.tick)) turn.tick ≤ 1000 := by
  rw [FitsTimeline]
  simp only [List.prefix_concat_iff]
  constructor
  · intro h
    exact ⟨fun p t ht => h p t (.inr ht), h past turn (.inl rfl)⟩
  · rintro ⟨h, hlast⟩ p t (heq | hp)
    · obtain ⟨rfl, rfl⟩ := List.append_singleton_inj.mp heq
      exact hlast
    · exact h p t hp

theorem eventsWritten_concat (retention start : Int64) {past : List Turn} {turn : Turn}
    (hnow : ((past ++ [turn]).map (·.tick.now)).Pairwise (· < ·))
    (hok : ∀ call, turn.answer call = .ok ()) :
    eventsWritten (storeCalls retention start (past ++ [turn])) =
      eventsWritten (storeCalls retention start past) ++
        ((afterRun (past.map Turn.tick)).appended turn.tick).rtake 1000 := by
  have hintel := sherd_intel retention start past
  have hconfigured : Configured ((sherd retention).run ⟨.new, start⟩ past).intel := by
    rw [hintel]
    exact configured_run _
  have hturn := eventsWritten_turn retention hconfigured hok
  rw [hintel] at hturn
  rw [storeCalls, Machine.trace_append, Machine.trace_singleton, eventsWritten_append]
  refine congrArg (eventsWritten _ ++ ·) (hturn fun e he => ?_)
  obtain ⟨t, ht, hte⟩ := timeline_times _ e he
  obtain ⟨earlier, he', rfl⟩ := List.mem_map.mp ht
  rw [List.map_append, List.pairwise_append] at hnow
  rw [hte]
  exact hnow.2.2 _ (List.mem_map_of_mem he') _ (by simp)

/-- A run writes every appended event if each turn fits, and otherwise fewer than there are. -/
theorem eventsWritten_run (retention start : Int64) (turns : List Turn)
    (hnow : (turns.map (·.tick.now)).Pairwise (· < ·))
    (hok : ∀ turn ∈ turns, ∀ call, turn.answer call = .ok ()) :
    (FitsTimeline turns →
      eventsWritten (storeCalls retention start turns) = runEvents (turns.map Turn.tick)) ∧
    (eventsWritten (storeCalls retention start turns)).length ≤ (runEvents (turns.map Turn.tick)).length ∧
    ((eventsWritten (storeCalls retention start turns)).length =
      (runEvents (turns.map Turn.tick)).length → FitsTimeline turns) := by
  induction turns using List.reverseRecOn with
  | nil => exact ⟨fun _ => rfl, Nat.le_refl _, fun _ _ _ h => by simp at h⟩
  | append_singleton past turn ih =>
    have hpast : (past.map (·.tick.now)).Pairwise (· < ·) := by
      rw [List.map_append, List.pairwise_append] at hnow
      exact hnow.1
    obtain ⟨heq, hle, hfits⟩ := ih hpast fun t ht => hok t (List.mem_append_left _ ht)
    have hcount := length_appended (configured_run (past.map Turn.tick)) turn.tick
    rw [fitsTimeline_concat, eventsWritten_concat retention start hnow (hok turn (by simp)),
      List.map_append, List.map_singleton, runEvents_concat, List.length_append, List.length_append,
      length_rtake, hcount]
    refine ⟨?_, by omega, fun h => ⟨hfits (by omega), by omega⟩⟩
    rintro ⟨hp, hlast⟩
    rw [heq hp, rtake_of_length_le (hcount.trans_le hlast)]

/-- Every appended event is written exactly once in a run exactly when no turn
finds more than 1000 changes. -/
theorem every_event_written_iff (retention start : Int64) (turns : List Turn)
    (hnow : (turns.map (·.tick.now)).Pairwise (· < ·))
    (hok : ∀ turn ∈ turns, ∀ call, turn.answer call = .ok ()) :
    (eventsWritten (storeCalls retention start turns)).Perm (runEvents (turns.map Turn.tick)) ↔
      FitsTimeline turns := by
  obtain ⟨heq, -, hfits⟩ := eventsWritten_run retention start turns hnow hok
  exact ⟨fun h => hfits h.length_eq, fun h => .of_eq (heq h)⟩

/-- A turn of a daemon whose store accepts everything. -/
def healthyTurn (t : Tick) : Turn where
  tick := t
  treeOrder := .stored
  nodeOrder := .stored
  answer _ := .ok ()

theorem every_event_written_two_turns :
    let turns := [healthyTurn (mockTick 1000 [snap 1 0 100 0 0]), healthyTurn (mockTick 1005 [])]
    (eventsWritten (storeCalls (retentionSecs 7) 1000 turns)).Perm (runEvents (turns.map Turn.tick)) := by
  intro turns
  have hfits : FitsTimeline turns := by
    change FitsTimeline ([] ++ [_] ++ [_])
    rw [fitsTimeline_concat, fitsTimeline_concat]
    exact ⟨⟨fun _ _ h => by simp at h, by decide⟩, by decide⟩
  exact (every_event_written_iff (retentionSecs 7) 1000 turns (by decide)
    (by simp [turns, healthyTurn])).mpr hfits

/-- A first look at a machine with 1001 processes. -/
def crowdedTurn : Turn :=
  healthyTurn (.stored 1000
    { listPids := .ok ((List.range 1001).map .ofNat)
      process := fun pid => .ok (snap pid 0 100 0 0)
      connections := fun _ => .ok [] })

/-- From the initial state every readable pid is at least one change. -/
theorem length_le_listChanges {t : Tick} (hr : ∀ pid, ∃ read, t.adapter.process pid = .ok read)
    (before pids : List Pid) :
    pids.length ≤ listChanges ProcessIntelligence.new.drainStale t before pids := by
  induction pids generalizing before with
  | nil => exact Nat.zero_le _
  | cons pid pids ih =>
    obtain ⟨read, hread⟩ := hr pid
    have hone : 1 ≤ readChanges ProcessIntelligence.new.drainStale t before pid := by
      rw [readChanges]
      rw [hread]
      have hnew : previouslyLive ProcessIntelligence.new.drainStale.current pid read = false := rfl
      simp only [hnew, Bool.false_eq_true, if_false]
      split <;> omega
    rw [listChanges, List.length_cons]
    have := ih (before ++ [pid])
    omega

theorem length_le_changes {t : Tick} {pids : List Pid} (hl : t.adapter.listPids = .ok pids)
    (hr : ∀ pid, ∃ read, t.adapter.process pid = .ok read) :
    pids.length ≤ changes ProcessIntelligence.new t := by
  rw [changes]
  rw [hl]
  exact (length_le_listChanges hr [] pids).trans (Nat.le_add_right _ _)

theorem crowded_turn_loses_events :
    ¬ (eventsWritten (storeCalls (retentionSecs 7) 1000 [crowdedTurn])).Perm
      (runEvents [crowdedTurn.tick]) := by
  intro h
  have hfits := (eventsWritten_run (retentionSecs 7) 1000 [crowdedTurn] (by simp)
    (by simp [crowdedTurn, healthyTurn])).2.2 h.length_eq
  have hchanges := hfits [] crowdedTurn (List.prefix_refl _)
  have hmany := length_le_changes (t := crowdedTurn.tick) rfl fun pid => ⟨_, rfl⟩
  rw [List.length_map, List.length_range] at hmany
  exact absurd (hmany.trans hchanges) (by decide)

end ProcessExplorer.Daemon
