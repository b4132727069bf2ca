import Mathlib.Logic.Function.Basic
import ProcessExplorer.Library.LocalFold
import ProcessExplorer.Intelligence.Refresh

/-! The loop of refresh_at, seen from one pid. Apart from the parent lookup
behind NewChild, an iteration reads and writes only what belongs to its pid. -/
namespace ProcessExplorer.Intelligence
open Library Model Telemetry

def isNewChild : TimelineEventKind → Bool
  | .newChild _ => true
  | _ => false

/-- Events a pid causes about itself; NewChild events are about the parent. -/
def isOwn (pid : Pid) (e : TimelineEvent) : Bool := e.pid = pid && !isNewChild e.kind

/-- What the state of the loop holds for one pid. -/
structure PidPart where
  live : Option ProcessSnapshot
  history : UInt64 → Option (List Sample)
  seen : UInt64 → Option (Finset String)
  observed : UInt64 → Bool
  own : List TimelineEvent

def Pass.part (pid : Pid) (p : Pass) : PidPart where
  live := p.newCurrent.lookup pid
  history st := p.history.lookup (pid, st)
  seen st := p.connectionsSeen.lookup (pid, st)
  observed st := (pid, st) ∈ p.newKeys
  own := p.pendingEvents.filter (isOwn pid)

/-- The events one reading of a pid causes about itself. -/
def ownEvents (s : ProcessIntelligence) (t : Tick) (pid : Pid) (read : ProcessSnapshot)
    (hist : Option (List Sample)) (seen : Option (Finset String)) : List TimelineEvent :=
  let snap := rateSnapshot t.now hist read
  (if previouslyLive s.current pid read then [] else [startedEvent t.now pid read]) ++
    growthEvents t.now pid hist snap ++
    connectionEvents (t.addrOrder pid) t.now pid snap (t.adapter.connections pid) seen

/-- The effect of one successful reading. -/
def PidPart.absorb (s : ProcessIntelligence) (t : Tick) (pid : Pid) (read : ProcessSnapshot)
    (v : PidPart) : PidPart :=
  let hist := v.history read.startTime
  let snap := rateSnapshot t.now hist read
  { live := some snap
    history := Function.update v.history read.startTime
      (some (pushSample s.historyCapacity hist (t.now, snap)))
    seen := Function.update v.seen read.startTime
      (nextSeen (t.adapter.connections pid) (v.seen read.startTime))
    observed := Function.update v.observed read.startTime true
    own := v.own ++ ownEvents s t pid read hist (v.seen read.startTime) }

def PidPart.observe (s : ProcessIntelligence) (t : Tick) (pid : Pid) (v : PidPart) : PidPart :=
  match t.adapter.process pid with
  | .error _ => v
  | .ok read => v.absorb s t pid read

@[simp] theorem rateSnapshot_startTime (now : Int64) (hist : Option (List Sample))
    (snap : ProcessSnapshot) : (rateSnapshot now hist snap).startTime = snap.startTime := by
  rw [rateSnapshot]
  split <;> rfl

@[simp] theorem rateSnapshot_memory (now : Int64) (hist : Option (List Sample))
    (snap : ProcessSnapshot) : (rateSnapshot now hist snap).memory = snap.memory := by
  rw [rateSnapshot]
  split <;> rfl

@[simp] theorem rateSnapshot_erasePercent (now : Int64) (hist : Option (List Sample))
    (snap : ProcessSnapshot) : (rateSnapshot now hist snap).erasePercent = snap.erasePercent := by
  rw [rateSnapshot]
  split <;> rfl

theorem mem_growthEvents {now : Int64} {pid : Pid} {hist : Option (List Sample)}
    {snap : ProcessSnapshot} {e : TimelineEvent} (h : e ∈ growthEvents now pid hist snap) :
    ∃ growth, e = growthEvent now pid snap growth := by
  rw [growthEvents] at h
  split at h
  · split at h
    · exact ⟨_, List.mem_singleton.mp h⟩
    · cases h
  · cases h

theorem mem_connectionEvents {order : Visit String} {now : Int64} {pid : Pid} {snap : ProcessSnapshot}
    {conns : Result (List NetworkConnection)} {seen : Option (Finset String)} {e : TimelineEvent}
    (h : e ∈ connectionEvents order now pid snap conns seen) :
    ∃ addr, e = connectionEvent now pid snap addr := by
  simp only [connectionEvents] at h
  split at h
  · obtain ⟨addr, _, rfl⟩ := List.mem_map.mp h
    exact ⟨addr, rfl⟩
  · cases h

theorem mem_startEvents {current newCurrent : HashMap Pid ProcessSnapshot} {now : Int64} {pid : Pid}
    {snap : ProcessSnapshot} {e : TimelineEvent} (h : e ∈ startEvents current newCurrent now pid snap) :
    e = startedEvent now pid snap ∨ ∃ parent, e = newChildEvent now pid snap parent := by
  rw [startEvents] at h
  split at h
  · cases h
  · rcases List.mem_cons.mp h with rfl | h
    · exact .inl rfl
    · obtain ⟨parent, _, rfl⟩ := Option.map_eq_some_iff.mp (Option.mem_toList.mp h)
      exact .inr ⟨parent, rfl⟩

theorem mem_ownEvents {s : ProcessIntelligence} {t : Tick} {pid : Pid} {read : ProcessSnapshot}
    {hist : Option (List Sample)} {seen : Option (Finset String)} {e : TimelineEvent}
    (h : e ∈ ownEvents s t pid read hist seen) :
    e = startedEvent t.now pid read ∨
      (∃ growth, e = growthEvent t.now pid (rateSnapshot t.now hist read) growth) ∨
      ∃ addr, e = connectionEvent t.now pid (rateSnapshot t.now hist read) addr := by
  rcases List.mem_append.mp h with h | h
  · rcases List.mem_append.mp h with h | h
    · split at h
      · cases h
      · exact .inl (List.mem_singleton.mp h)
    · exact .inr (.inl (mem_growthEvents h))
  · exact .inr (.inr (mem_connectionEvents h))

theorem ownEvents_isOwn {s : ProcessIntelligence} {t : Tick} {pid : Pid} {read : ProcessSnapshot}
    {hist : Option (List Sample)} {seen : Option (Finset String)} {e : TimelineEvent}
    (h : e ∈ ownEvents s t pid read hist seen) : e.pid = pid ∧ isNewChild e.kind = false := by
  rcases mem_ownEvents h with rfl | ⟨_, rfl⟩ | ⟨_, rfl⟩ <;> exact ⟨rfl, rfl⟩

/-- The NewChild event of one reading, if the parent is found in either table. -/
def childEvents (s : ProcessIntelligence) (newCurrent : HashMap Pid ProcessSnapshot) (t : Tick)
    (pid : Pid) (read : ProcessSnapshot) : List TimelineEvent :=
  if previouslyLive s.current pid read then []
  else ((parentStartTime s.current newCurrent read.ppid).map (newChildEvent t.now pid read)).toList

theorem childEvents_isNewChild {s : ProcessIntelligence} {newCurrent : HashMap Pid ProcessSnapshot}
    {t : Tick} {pid : Pid} {read : ProcessSnapshot} {e : TimelineEvent}
    (h : e ∈ childEvents s newCurrent t pid read) : e.kind = .newChild pid := by
  rw [childEvents] at h
  split at h
  · cases h
  · obtain ⟨_, _, rfl⟩ := Option.map_eq_some_iff.mp (Option.mem_toList.mp h)
    rfl

/-- The events one iteration adds, up to the place of the NewChild event among them. -/
theorem iteration_events_perm (s : ProcessIntelligence) (newCurrent : HashMap Pid ProcessSnapshot)
    (t : Tick) (pid : Pid) (read : ProcessSnapshot) (hist : Option (List Sample))
    (seen : Option (Finset String)) :
    let snap := rateSnapshot t.now hist read
    (startEvents s.current newCurrent t.now pid read ++ growthEvents t.now pid hist snap ++
      connectionEvents (t.addrOrder pid) t.now pid snap (t.adapter.connections pid) seen).Perm
      (ownEvents s t pid read hist seen ++ childEvents s newCurrent t pid read) := by
  intro snap
  rw [ownEvents, childEvents, startEvents]
  split
  · simp [snap]
  · simp only [List.append_assoc, List.cons_append, List.nil_append, snap]
    refine .cons _ ?_
    rw [← List.append_assoc (growthEvents _ _ _ _)]
    exact List.perm_append_comm

/-- Filtered to the events of one pid, an iteration adds its own events and nothing else. -/
theorem filter_iteration_events (s : ProcessIntelligence) (newCurrent : HashMap Pid ProcessSnapshot)
    (t : Tick) (pid pid' : Pid) (read : ProcessSnapshot) (hist : Option (List Sample))
    (seen : Option (Finset String)) :
    let snap := rateSnapshot t.now hist read
    (startEvents s.current newCurrent t.now pid read ++ growthEvents t.now pid hist snap ++
      connectionEvents (t.addrOrder pid) t.now pid snap (t.adapter.connections pid) seen).filter
        (isOwn pid') = if pid' = pid then ownEvents s t pid read hist seen else [] := by
  intro snap
  have hstart : (startEvents s.current newCurrent t.now pid read).filter (isOwn pid') =
      (if previouslyLive s.current pid read then [] else [startedEvent t.now pid read]).filter
        (isOwn pid') := by
    rw [startEvents]
    split
    · rfl
    · rw [List.filter_cons, List.filter_singleton]
      cases parentStartTime s.current newCurrent read.ppid <;> simp [isOwn, newChildEvent, isNewChild]
  have hown : (startEvents s.current newCurrent t.now pid read ++ growthEvents t.now pid hist snap ++
      connectionEvents (t.addrOrder pid) t.now pid snap (t.adapter.connections pid) seen).filter
        (isOwn pid') = (ownEvents s t pid read hist seen).filter (isOwn pid') := by
    simp only [ownEvents, List.filter_append, hstart, snap]
  rw [hown]
  split
  · subst pid'
    exact List.filter_eq_self.mpr fun e he => by simp [isOwn, ownEvents_isOwn he]
  · rename_i hne
    apply List.filter_eq_nil_iff.mpr
    intro e he
    simp [isOwn, (ownEvents_isOwn he).1, Ne.symm hne]

/-- The events of one iteration, in one list. -/
def iterationEvents (s : ProcessIntelligence) (t : Tick) (p : Pass) (pid : Pid) : List TimelineEvent :=
  match t.adapter.process pid with
  | .error _ => []
  | .ok read =>
    let key := (pid, read.startTime)
    let snap := rateSnapshot t.now (p.history.lookup key) read
    startEvents s.current p.newCurrent t.now pid read ++
      growthEvents t.now pid (p.history.lookup key) snap ++
      connectionEvents (t.addrOrder pid) t.now pid snap (t.adapter.connections pid)
        (p.connectionsSeen.lookup key)

theorem observe_pendingEvents (s : ProcessIntelligence) (t : Tick) (p : Pass) (pid : Pid) :
    (observe s t p pid).pendingEvents = p.pendingEvents ++ iterationEvents s t p pid := by
  rw [observe, iterationEvents]
  cases t.adapter.process pid <;> simp

theorem mem_iterationEvents {s : ProcessIntelligence} {t : Tick} {p : Pass} {pid : Pid} {e : TimelineEvent}
    (h : e ∈ iterationEvents s t p pid) : ∃ read, t.adapter.process pid = .ok read ∧
      (e = startedEvent t.now pid read ∨ (∃ parent, e = newChildEvent t.now pid read parent) ∨
        ∃ snap : ProcessSnapshot, snap.startTime = read.startTime ∧
          ((∃ growth, e = growthEvent t.now pid snap growth) ∨
            ∃ addr, e = connectionEvent t.now pid snap addr)) := by
  rw [iterationEvents] at h
  split at h
  · cases h
  · rename_i read hr
    refine ⟨read, hr, ?_⟩
    rcases List.mem_append.mp h with h | h
    · rcases List.mem_append.mp h with h | h
      · rcases mem_startEvents h with h | h
        · exact .inl h
        · exact .inr (.inl h)
      · exact .inr (.inr ⟨_, rateSnapshot_startTime _ _ _, .inl (mem_growthEvents h)⟩)
    · exact .inr (.inr ⟨_, rateSnapshot_startTime _ _ _, .inr (mem_connectionEvents h)⟩)

theorem iterationEvents_observedAt {s : ProcessIntelligence} {t : Tick} {p : Pass} {pid : Pid}
    {e : TimelineEvent} (h : e ∈ iterationEvents s t p pid) : e.observedAt = t.now := by
  obtain ⟨read, -, rfl | ⟨_, rfl⟩ | ⟨snap, -, ⟨_, rfl⟩ | ⟨_, rfl⟩⟩⟩ := mem_iterationEvents h <;> rfl

/-- What holds of the events of every iteration holds of all events of the loop. -/
theorem forall_pendingEvents {s : ProcessIntelligence} {t : Tick} {P : TimelineEvent → Prop} {pids : List Pid}
    (h : ∀ p, ∀ pid ∈ pids, ∀ e ∈ iterationEvents s t p pid, P e) :
    ∀ e ∈ (s.scan t pids).pendingEvents, P e := by
  have hfold (p : Pass) (hp : ∀ e ∈ p.pendingEvents, P e) :
      ∀ e ∈ (pids.foldl (observe s t) p).pendingEvents, P e := by
    induction pids generalizing p with
    | nil => exact hp
    | cons pid pids ih =>
      apply ih fun p pid hm => h p pid (List.mem_cons_of_mem _ hm)
      intro e he
      rw [observe_pendingEvents] at he
      rcases List.mem_append.mp he with he | he
      · exact hp e he
      · exact h p pid (List.mem_cons_self ..) e he
  apply hfold
  intro e he
  cases he

theorem part_observe_self (s : ProcessIntelligence) (t : Tick) (p : Pass) (pid : Pid) :
    (observe s t p pid).part pid = (p.part pid).observe s t pid := by
  rw [observe, PidPart.observe]
  cases t.adapter.process pid with
  | error e => rfl
  | ok read =>
    simp only [Pass.part, PidPart.absorb, PidPart.mk.injEq]
    refine ⟨by simp, ?_, ?_, ?_, ?_⟩
    · funext st
      simp [HashMap.lookup_insert, Function.update_apply]
    · funext st
      cases hn : nextSeen (t.adapter.connections pid) (p.connectionsSeen.lookup (pid, read.startTime)) with
      | none =>
        have : p.connectionsSeen.lookup (pid, read.startTime) = none := by
          simp only [nextSeen] at hn
          split at hn
          · cases hn
          · exact hn
        by_cases h : st = read.startTime
        · subst h
          simp [this]
        · simp [h]
      | some addrs => simp [HashMap.lookup_insert, Function.update_apply]
    · funext st
      simp [Function.update_apply]
    · rw [List.append_assoc, List.append_assoc, List.filter_append, ← List.append_assoc,
        filter_iteration_events, if_pos rfl]

theorem part_observe_other (s : ProcessIntelligence) (t : Tick) (p : Pass) (pid pid' : Pid)
    (h : pid' ≠ pid) : (observe s t p pid).part pid' = p.part pid' := by
  rw [observe]
  cases t.adapter.process pid with
  | error e => rfl
  | ok read =>
    have hk (st : UInt64) : (pid', st) ≠ (pid, read.startTime) := fun he => h (congrArg Prod.fst he)
    simp only [Pass.part, PidPart.mk.injEq]
    refine ⟨by simp [h], ?_, ?_, ?_, ?_⟩
    · funext st
      simp [hk]
    · funext st
      split <;> simp [hk]
    · funext st
      simp [hk]
    · rw [List.append_assoc, List.append_assoc, List.filter_append, ← List.append_assoc,
        filter_iteration_events, if_neg h, List.append_nil]

/-- The loop body as a body that is local in the pid. -/
def passBody (s : ProcessIntelligence) (t : Tick) : LocalBody Pid Pass (fun _ => PidPart) where
  body := observe s t
  part := Pass.part
  effect := PidPart.observe s t
  part_self := part_observe_self s t
  part_other p pid pid' h := part_observe_other s t p pid pid' h

/-- What the loop starts from, for one pid. -/
theorem part_passStart (s : ProcessIntelligence) (pid : Pid) :
    s.passStart.part pid = ⟨none, fun st => s.history.lookup (pid, st),
      fun st => s.connectionsSeen.lookup (pid, st), fun _ => false, []⟩ := by
  simp [Pass.part, ProcessIntelligence.passStart]

theorem scan_part_of_read {s : ProcessIntelligence} {t : Tick} {pids : List Pid} {pid : Pid}
    {read : ProcessSnapshot} (hd : pids.Nodup) (hm : pid ∈ pids)
    (hr : t.adapter.process pid = .ok read) :
    (s.scan t pids).part pid = (s.passStart.part pid).absorb s t pid read := by
  apply ((passBody s t).part_foldl_of_mem hd hm s.passStart).trans
  simp [passBody, PidPart.observe, hr]

theorem scan_part_of_skip {s : ProcessIntelligence} {t : Tick} {pids : List Pid} {pid : Pid}
    (h : pid ∈ pids → ∃ e, t.adapter.process pid = .error e) :
    (s.scan t pids).part pid = s.passStart.part pid := by
  by_cases hm : pid ∈ pids
  · obtain ⟨e, he⟩ := h hm
    apply ((passBody s t).part_foldl pid pids s.passStart).trans
    have hid : (passBody s t).effect pid = id := by
      funext v
      simp [passBody, PidPart.observe, he]
    rw [hid, Function.iterate_id]
    rfl
  · exact (passBody s t).part_foldl_of_notMem hm s.passStart

end ProcessExplorer.Intelligence
