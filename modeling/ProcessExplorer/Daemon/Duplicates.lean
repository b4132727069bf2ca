import ProcessExplorer.Daemon.Sherd

/-! Which events the daemon writes again on a later turn. Novelty is judged by the clock alone. -/
namespace ProcessExplorer.Daemon
open Library Model Telemetry Intelligence

def written (past : List Turn) (turn : Turn) : List (TimelineEvent × ℕ) :=
  (numberedTimeline ((past ++ [turn]).map Turn.tick)).filter fun x => turn.tick.now ≤ x.1.observedAt

/-- No two turns write the event with the same number. -/
def WrittenOnce (turns : List Turn) : Prop :=
  ∀ past turn between later, past ++ turn :: between ++ [later] <+: turns →
    ∀ x ∈ written past turn, ∀ y ∈ written (past ++ turn :: between) later, x.2 ≠ y.2

def changesAlong (past : List Turn) : List Turn → ℕ
  | [] => 0
  | turn :: rest =>
    changes (afterRun (past.map Turn.tick)) turn.tick + changesAlong (past ++ [turn]) rest

/-- A turn whose clock is not past that of an earlier turn with changes comes 1000 changes after it. -/
def ClockMovesOn (turns : List Turn) : Prop :=
  ∀ past turn between later, past ++ turn :: between ++ [later] <+: turns →
    later.tick.now ≤ turn.tick.now → 0 < changes (afterRun (past.map Turn.tick)) turn.tick →
      1000 ≤ changesAlong (past ++ [turn]) (between ++ [later])

theorem length_runEvents_append (past later : List Turn) :
    (runEvents ((past ++ later).map Turn.tick)).length =
      (runEvents (past.map Turn.tick)).length + changesAlong past later := by
  induction later generalizing past with
  | nil => simp [changesAlong]
  | cons turn later ih =>
    have hsplit : past ++ turn :: later = past ++ [turn] ++ later := by simp
    have hturn := length_appended (configured_run (past.map Turn.tick)) turn.tick
    rw [hsplit, ih, changesAlong, List.map_append, List.map_singleton, runEvents_concat, List.length_append,
      hturn,
      Nat.add_assoc]

theorem mem_written {past : List Turn} {turn : Turn} {e : TimelineEvent} {n : ℕ} :
    (e, n) ∈ written past turn ↔ (runEvents ((past ++ [turn]).map Turn.tick))[n]? = some e ∧
      (runEvents ((past ++ [turn]).map Turn.tick)).length ≤ n + 1000 ∧ turn.tick.now ≤ e.observedAt := by
  rw [written, List.mem_filter, mem_numberedTimeline, decide_eq_true_iff, and_assoc]

theorem runEvents_prefix {past turns : List Turn} (h : past <+: turns) :
    runEvents (past.map Turn.tick) <+: runEvents (turns.map Turn.tick) := by
  obtain ⟨later, rfl⟩ := h
  rw [List.map_append, runEvents_append]
  exact List.prefix_append _ _

/-- An event is the same event whatever turns come after it. -/
theorem getElem?_runEvents {past turns : List Turn} (h : past <+: turns) {n : ℕ} {e : TimelineEvent}
    (he : (runEvents (past.map Turn.tick))[n]? = some e) : (runEvents (turns.map Turn.tick))[n]? = some e := by
  obtain ⟨later, hlater⟩ := runEvents_prefix h
  rw [← hlater, List.getElem?_append_left (List.getElem?_eq_some_iff.mp he).1, he]

theorem last_written {past : List Turn} {turn : Turn}
    (h : 0 < changes (afterRun (past.map Turn.tick)) turn.tick) :
    ∃ e, e.observedAt = turn.tick.now ∧
      (runEvents ((past ++ [turn]).map Turn.tick))[(runEvents ((past ++ [turn]).map Turn.tick)).length - 1]? =
        some e := by
  rw [← length_appended (configured_run _), List.length_pos_iff] at h
  obtain ⟨e, he⟩ : ∃ e, ((afterRun (past.map Turn.tick)).appended turn.tick).getLast? = some e :=
    ⟨_, List.getLast?_eq_getLast_of_ne_nil h⟩
  refine ⟨e, appended_observedAt (List.mem_of_getLast? he), ?_⟩
  rw [← List.getLast?_eq_getElem?, List.map_append, List.map_singleton, runEvents_concat,
    List.getLast?_append_of_ne_nil _ h, he]

theorem clockMovesOn_of_writtenOnce {turns : List Turn} (h : WrittenOnce turns) : ClockMovesOn turns := by
  intro past turn between later hturns hnow hchanges
  by_contra hfew
  have hturn : past ++ [turn] <+: past ++ turn :: between ++ [later] := ⟨between ++ [later], by simp⟩
  obtain ⟨e, hat, he⟩ := last_written hchanges
  have hlength := length_runEvents_append (past ++ [turn]) (between ++ [later])
  have hsplit : past ++ [turn] ++ (between ++ [later]) = past ++ turn :: between ++ [later] := by simp
  rw [hsplit] at hlength
  have hpos := (List.getElem?_eq_some_iff.mp he).1
  apply h past turn between later hturns _ (mem_written.mpr ⟨he, by omega, ?_⟩) _
    (mem_written.mpr ⟨getElem?_runEvents hturn he, by omega, ?_⟩) rfl
  · exact hat ▸ Int64.le_refl _
  · exact hat ▸ hnow

theorem turn_origin {turns : List Turn} {n : ℕ} {e : TimelineEvent}
    (h : (runEvents (turns.map Turn.tick))[n]? = some e) :
    ∃ past turn later, turns = past ++ turn :: later ∧ n < (runEvents ((past ++ [turn]).map Turn.tick)).length ∧
      e.observedAt = turn.tick.now ∧ 0 < changes (afterRun (past.map Turn.tick)) turn.tick := by
  obtain ⟨before, t, after, hsplit, -, hlt, hmem⟩ := runEvents_origin h
  obtain ⟨past, rest, rfl, rfl, hrest⟩ := List.map_eq_append_iff.mp hsplit
  obtain ⟨turn, later, rfl, rfl, -⟩ := List.map_eq_cons_iff.mp hrest
  refine ⟨past, turn, later, rfl, by simpa using hlt, appended_observedAt hmem, ?_⟩
  rw [← length_appended (configured_run _)]
  exact List.length_pos_of_mem hmem

theorem writtenOnce_of_clockMovesOn {turns : List Turn} (h : ClockMovesOn turns) : WrittenOnce turns := by
  rintro past turn between later hturns ⟨e, n⟩ hx ⟨e', n'⟩ hy rfl
  obtain ⟨he, -, -⟩ := mem_written.mp hx
  obtain ⟨he', hlength, hnow⟩ := mem_written.mp hy
  have hturn : past ++ [turn] <+: past ++ turn :: between ++ [later] := ⟨between ++ [later], by simp⟩
  obtain rfl : e = e' := Option.some.inj ((getElem?_runEvents hturn he).symm.trans he')
  -- The clock is compared with that of the turn the event comes from, which may be an earlier one.
  obtain ⟨before, origin, after, hsplit, hlt, hat, hchanges⟩ := turn_origin he
  have hlater : before ++ origin :: (after ++ between) ++ [later] = past ++ turn :: between ++ [later] := by
    simpa using congrArg (· ++ (between ++ [later])) hsplit.symm
  have hmany := h before origin (after ++ between) later (hlater ▸ hturns) (hat ▸ hnow) hchanges
  have hcount := length_runEvents_append (before ++ [origin]) (after ++ between ++ [later])
  have hsame : before ++ [origin] ++ (after ++ between ++ [later]) = past ++ turn :: between ++ [later] := by
    rw [← hlater]
    simp
  rw [hsame] at hcount
  omega

theorem eventsWritten_emit (retention start : Int64) (past : List Turn) {turn : Turn}
    (hs : turn.tick.Succeeds) (hok : ∀ call, turn.answer call = .ok ()) :
    eventsWritten ((sherd retention).emit ((sherd retention).run ⟨.new, start⟩ past) turn) =
      (written past turn).map Prod.fst := by
  have hintel := sherd_intel retention start past
  have hrefresh : (afterRun (past.map Turn.tick)).refreshAt turn.tick =
      (afterRun ((past ++ [turn]).map Turn.tick), .ok ()) := by
    obtain ⟨pids, hl⟩ := hs
    rw [List.map_append, List.map_singleton, afterRun_concat, ProcessIntelligence.refreshAt, hl]
  change eventsWritten (Sherd.turn retention _ turn).2 = _
  rw [Sherd.turn, eventsWritten_append, eventsWritten_prune, List.append_nil, sample, hintel, hrefresh]
  simp only [eventsWritten_persistTick _ hok, ProcessIntelligence.recentTimelineEvents, written,
    ← numberedTimeline_events, List.filter_map]
  rfl

/-- In a run of successful refreshes and inserts no event is written by two turns exactly when the
clock moves on past every turn with changes whose events can still be in the timeline. -/
theorem no_event_written_twice_iff (retention start : Int64) (turns : List Turn)
    (hs : ∀ turn ∈ turns, turn.tick.Succeeds) (hok : ∀ turn ∈ turns, ∀ call, turn.answer call = .ok ()) :
    (∀ past turn, past ++ [turn] <+: turns →
      eventsWritten ((sherd retention).emit ((sherd retention).run ⟨.new, start⟩ past) turn) =
        (written past turn).map Prod.fst) ∧
    (WrittenOnce turns ↔ ClockMovesOn turns) := by
  refine ⟨?_, clockMovesOn_of_writtenOnce, writtenOnce_of_clockMovesOn⟩
  intro past turn hturns
  have hm : turn ∈ turns := hturns.subset (by simp)
  exact eventsWritten_emit retention start past (hs turn hm) (hok turn hm)

/-- A clock that never stands still is always moving on. -/
theorem ClockMovesOn.of_increasing {turns : List Turn} (h : (turns.map (·.tick.now)).Pairwise (· < ·)) :
    ClockMovesOn turns := by
  intro past turn between later hturns hnow
  have hpair := h.sublist (hturns.sublist.map (·.tick.now))
  simp only [List.map_append, List.map_cons, List.map_nil, List.pairwise_append, List.mem_append,
    List.mem_cons] at hpair
  have hlt := hpair.2.2 turn.tick.now (.inr (.inl rfl)) later.tick.now (.inl rfl)
  exact absurd hlt (Int64.not_lt.mpr hnow)

theorem no_event_written_twice_two_turns :
    WrittenOnce [healthyTurn (mockTick 1000 [snap 1 0 100 0 0]), healthyTurn (mockTick 1005 [])] :=
  (no_event_written_twice_iff (retentionSecs 7) 1000 _ (by simp [healthyTurn, mockTick_succeeds])
    (by simp [healthyTurn])).2.mpr (.of_increasing (by decide))

/-- The clock stands still for one turn, and the start of process 1 is written again. -/
theorem standing_clock_writes_twice :
    let turn := healthyTurn (mockTick 1000 [snap 1 0 100 0 0])
    ¬ WrittenOnce [turn, turn] ∧
      (eventsWritten (storeCalls (retentionSecs 7) 1000 [turn, turn])).map (·.kind) = [.started, .started] := by
  intro turn
  constructor
  · intro h
    have hfirst : (startedEvent 1000 1 (snap 1 0 100 0 0), 0) ∈ written [] turn := by decide
    have hsecond : (startedEvent 1000 1 (snap 1 0 100 0 0), 0) ∈ written [turn] turn := by decide
    exact h [] turn [] turn (List.prefix_refl _) _ hfirst _ hsecond rfl
  · decide

end ProcessExplorer.Daemon
