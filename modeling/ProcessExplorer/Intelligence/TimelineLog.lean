import ProcessExplorer.Intelligence.Queries

/-! The events that a run has appended: each carries the time of its call, and they are numbered in the order in
which they came. -/
namespace ProcessExplorer.Intelligence
open Library Model Telemetry

theorem appended_observedAt {s : ProcessIntelligence} {t : Tick} {e : TimelineEvent}
    (h : e ∈ s.appended t) : e.observedAt = t.now := by
  rw [ProcessIntelligence.appended] at h
  split at h
  · cases h
  · rename_i pids _
    rcases List.mem_append.mp h with h | h
    · exact forall_pendingEvents (fun _ _ _ _ => iterationEvents_observedAt) e h
    · obtain ⟨_, _, rfl⟩ := List.mem_map.mp h
      rfl

/-- Every event of a run carries the time of the call that appended it. -/
theorem runEvents_times (ticks : List Tick) : ∀ e ∈ runEvents ticks, ∃ t ∈ ticks, e.observedAt = t.now := by
  induction ticks using List.reverseRecOn with
  | nil => exact fun e he => by cases he
  | append_singleton past t ih =>
    intro e he
    rw [runEvents_concat] at he
    rcases List.mem_append.mp he with he | he
    · obtain ⟨t', ht', h⟩ := ih e he
      exact ⟨t', List.mem_append_left _ ht', h⟩
    · exact ⟨t, by simp, appended_observedAt he⟩

/-- With a clock that does not go back the events of a run are in the order of their times. -/
theorem runEvents_sorted {ticks : List Tick} (hmono : (ticks.map Tick.now).Pairwise (· ≤ ·)) :
    (runEvents ticks).Pairwise fun e e' => e.observedAt ≤ e'.observedAt := by
  induction ticks using List.reverseRecOn with
  | nil => exact .nil
  | append_singleton past t ih =>
    rw [List.map_append, List.pairwise_append] at hmono
    rw [runEvents_concat, List.pairwise_append]
    refine ⟨ih hmono.1, List.pairwise_of_forall_mem_list ?_, ?_⟩
    · intro e he e' he'
      rw [appended_observedAt he, appended_observedAt he']
      exact Int64.le_refl _
    · intro e he e' he'
      obtain ⟨t', ht', hat⟩ := runEvents_times past e he
      rw [hat, appended_observedAt he']
      exact hmono.2.2 _ (List.mem_map_of_mem ht') _ (by simp)

theorem timeline_sorted {ticks : List Tick} (hmono : (ticks.map Tick.now).Pairwise (· ≤ ·)) :
    (afterRun ticks).timeline.Pairwise fun e e' => e.observedAt ≤ e'.observedAt := by
  rw [timeline_run]
  exact (runEvents_sorted hmono).sublist (List.drop_sublist _ _)

theorem timeline_times (ticks : List Tick) :
    ∀ e ∈ (afterRun ticks).timeline, ∃ t ∈ ticks, e.observedAt = t.now := by
  intro e he
  rw [timeline_run] at he
  exact runEvents_times ticks e (mem_of_mem_rtake he)

theorem runEvents_append (past later : List Tick) :
    runEvents (past ++ later) = runEvents past ++ service.trace (afterRun past) later :=
  service.trace_append _ past later

/-- The call that appended the event with a given number. -/
theorem runEvents_origin {ticks : List Tick} {n : ℕ} {e : TimelineEvent} (h : (runEvents ticks)[n]? = some e) :
    ∃ past t later, ticks = past ++ t :: later ∧ (runEvents past).length ≤ n ∧
      n < (runEvents (past ++ [t])).length ∧ e ∈ (afterRun past).appended t := by
  induction ticks using List.reverseRecOn with
  | nil => cases h
  | append_singleton past t ih =>
    rw [runEvents_concat] at h
    rcases Nat.lt_or_ge n (runEvents past).length with hlt | hge
    · rw [List.getElem?_append_left hlt] at h
      obtain ⟨before, t', later, rfl, hn⟩ := ih h
      exact ⟨before, t', later ++ [t], by simp, hn⟩
    · rw [List.getElem?_append_right hge] at h
      have hn := (List.getElem?_eq_some_iff.mp h).1
      refine ⟨past, t, [], rfl, hge, ?_, List.mem_of_getElem? h⟩
      rw [runEvents_concat, List.length_append]
      omega

/-- The timeline, each event with its number: how many events were appended before it. -/
def numberedTimeline (ticks : List Tick) : List (TimelineEvent × ℕ) := (runEvents ticks).zipIdx.rtake 1000

theorem numberedTimeline_events (ticks : List Tick) :
    (numberedTimeline ticks).map Prod.fst = (afterRun ticks).timeline := by
  rw [numberedTimeline, map_rtake, List.zipIdx_map_fst, timeline_run]

/-- New events get the next numbers, and those that stay keep theirs. -/
theorem mem_numberedTimeline {ticks : List Tick} {e : TimelineEvent} {n : ℕ} :
    (e, n) ∈ numberedTimeline ticks ↔
      (runEvents ticks)[n]? = some e ∧ (runEvents ticks).length ≤ n + 1000 :=
  mem_rtake_zipIdx

end ProcessExplorer.Intelligence
