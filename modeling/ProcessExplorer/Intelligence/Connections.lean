import ProcessExplorer.Intelligence.Changes
import ProcessExplorer.Intelligence.HistoryLog

/-! When a peer is reported. Along the observations of a generation, the addresses that are not
reported again are those of the last read that succeeded. -/
namespace ProcessExplorer.Intelligence
open Library Model Telemetry

/-- A report of the address as a new connection of the generation. -/
def isReport (key : HistoryKey) (addr : String) (e : TimelineEvent) : Bool :=
  e.key = key && e.kind = .newConnection addr

def reports (key : HistoryKey) (addr : String) (events : List TimelineEvent) : Nat :=
  events.countP (isReport key addr)

/-- The connections that a call reads for a generation. -/
def Tick.connectionsRead (t : Tick) (key : HistoryKey) : Option (List NetworkConnection) :=
  (t.adapter.connections key.1).toOption

/-- The most recent successful read of the connections on the unbroken stretch that ends with these calls. -/
def lastConnections (past : List Tick) (key : HistoryKey) : Option (List NetworkConnection) :=
  ((past.rtakeWhile (·.observes key)).filterMap (·.connectionsRead key)).getLast?

def Connects (conns : List NetworkConnection) (addr : String) : Prop := ∃ c ∈ conns, c.remoteAddr = addr

instance (conns : List NetworkConnection) (addr : String) : Decidable (Connects conns addr) :=
  inferInstanceAs (Decidable (∃ c ∈ conns, c.remoteAddr = addr))

/-- The call reads a connection to the address, and the read before it on this stretch found none. -/
def NewlyConnected (past : List Tick) (t : Tick) (key : HistoryKey) (addr : String) : Prop :=
  addr ≠ "" ∧ (∃ conns, t.connectionsRead key = some conns ∧ Connects conns addr) ∧
    ∀ conns, lastConnections past key = some conns → ¬ Connects conns addr

theorem mem_remoteAddrs {conns : List NetworkConnection} {addr : String} :
    addr ∈ remoteAddrs conns ↔ addr ≠ "" ∧ Connects conns addr := by
  simp [remoteAddrs, Connects, and_comm]

/-- Reading the same connections again leaves the addresses as they are. -/
theorem Tracker.observed_seen (tr : Tracker) (now : Int64) (read : ProcessSnapshot)
    (conns : Result (List NetworkConnection)) (again : Nat) :
    (tr.observed now read conns again).seen = nextSeen conns (tr.seenAt read.startTime) := by
  rw [observed]
  induction again with
  | zero => rfl
  | succ again ih =>
    change nextSeen conns (Generation.extendAgain _ now read conns _ again).1.seen = _
    rw [ih]
    cases conns <;> rfl

theorem Tracker.seenAt_step_present (tr : Tracker) (now : Int64) (read : ProcessSnapshot)
    (conns : Result (List NetworkConnection)) (again : Nat) (st : UInt64) :
    (tr.step (.present now read conns again)).seenAt st =
      if read.startTime = st then nextSeen conns (tr.seenAt st) else none := by
  split
  · subst st
    simp [seenAt, liveAt, step, Option.filter, observed_seen]
  · rename_i hne
    simp [seenAt, liveAt, step, hne, Option.filter]

theorem lastConnections_concat_of_observes {past : List Tick} {t : Tick} {key : HistoryKey}
    (h : t.observes key = true) :
    lastConnections (past ++ [t]) key = (t.connectionsRead key).or (lastConnections past key) := by
  rw [lastConnections, List.rtakeWhile_concat_pos _ _ _ h, List.filterMap_append, List.getLast?_append]
  cases hconns : t.connectionsRead key <;> simp [hconns, lastConnections]

theorem lastConnections_concat_of_not {past : List Tick} {t : Tick} {key : HistoryKey}
    (h : t.observes key = false) : lastConnections (past ++ [t]) key = none := by
  rw [lastConnections, List.rtakeWhile_concat_neg _ _ _ (by simp [h])]
  rfl

/-- A run has seen the addresses of the last successful read of the stretch. -/
theorem seenAt_run {ticks : List Tick} (hw : ∀ t ∈ ticks, t.WellBehaved) (pid : Pid) (st : UInt64) :
    (trackerOf ticks pid).seenAt st =
      (lastConnections ticks (pid, st)).map fun conns => (remoteAddrs conns).toFinset := by
  induction ticks using List.reverseRecOn with
  | nil => rfl
  | append_singleton past t ih =>
    have ih := ih fun x hx => hw x (List.mem_append_left _ hx)
    have ht := hw t (by simp)
    rw [trackerOf_concat]
    cases hr : t.reading pid with
    | none =>
      rw [experience_of_no_reading ht.1 hr, lastConnections_concat_of_not (by simp [Tick.observes, hr])]
      rfl
    | some read =>
      rw [experience_of_reading ht.2 hr, Tracker.seenAt_step_present]
      by_cases hst : read.startTime = st
      · rw [if_pos hst, lastConnections_concat_of_observes (by simp [Tick.observes, hr, hst]), ih,
          Tick.connectionsRead]
        cases t.adapter.connections pid <;> rfl
      · rw [if_neg hst, lastConnections_concat_of_not (by simp [Tick.observes, hr, hst])]
        rfl

def newAddrs (conns : Option (List NetworkConnection)) (seen : Option (Finset String)) : List String :=
  (remoteAddrs (conns.getD [])).filter (· ∉ seen.getD ∅)

theorem newAddrs_nodup (conns : Option (List NetworkConnection)) (seen : Option (Finset String)) :
    (newAddrs conns seen).Nodup := (List.nodup_dedup _).filter _

theorem mem_newAddrs {conns : Option (List NetworkConnection)} {seen : Option (Finset String)} {addr : String} :
    addr ∈ newAddrs conns seen ↔
      addr ≠ "" ∧ (∃ cs, conns = some cs ∧ Connects cs addr) ∧ addr ∉ seen.getD ∅ := by
  rw [newAddrs, List.mem_filter, mem_remoteAddrs, decide_eq_true_iff, and_assoc]
  cases conns <;> simp [Connects]

theorem reports_connectionEvents (order : Visit String) (now : Int64) {pid : Pid} {snap : ProcessSnapshot}
    {st : UInt64} (hst : snap.startTime = st) (conns : Result (List NetworkConnection))
    (seen : Option (Finset String)) (addr : String) :
    reports (pid, st) addr (connectionEvents order now pid snap conns seen) =
      (newAddrs conns.toOption seen).count addr := by
  subst st
  cases conns with
  | error e => rfl
  | ok conns =>
    have hreport : isReport (pid, snap.startTime) addr ∘ connectionEvent now pid snap = fun a => a == addr := by
      funext a
      simp [isReport, connectionEvent, TimelineEvent.key, Bool.beq_eq_decide_eq]
    rw [reports, connectionEvents, List.countP_map, hreport]
    exact (order.perm _).count_eq addr

theorem reports_append (key : HistoryKey) (addr : String) (l r : List TimelineEvent) :
    reports key addr (l ++ r) = reports key addr l + reports key addr r := List.countP_append

theorem reports_eq_zero {key : HistoryKey} {addr : String} {events : List TimelineEvent}
    (h : ∀ e ∈ events, e.kind ≠ .newConnection addr) : reports key addr events = 0 := by
  apply List.countP_eq_zero.mpr
  intro e he
  simp [isReport, h e he]

theorem reports_filter_isOwn (pid : Pid) (st : UInt64) (addr : String) (events : List TimelineEvent) :
    reports (pid, st) addr (events.filter (isOwn pid)) = reports (pid, st) addr events := by
  rw [reports, reports, List.countP_filter]
  apply List.countP_congr
  intro e _
  cases hkind : e.kind <;> simp [isReport, isOwn, hkind, isNewChild, TimelineEvent.key]
  tauto

theorem reports_appended {s : ProcessIntelligence} {t : Tick} {pid : Pid} {tr : Tracker} (h : Tracks s pid tr)
    (hd : t.Distinct) {st : UInt64} (hobs : t.observes (pid, st)) (addr : String) :
    reports (pid, st) addr (s.appended t) =
      (newAddrs (t.connectionsRead (pid, st)) (tr.seenAt st)).count addr := by
  obtain ⟨read, hr, hst⟩ := Option.map_eq_some_iff.mp (of_decide_eq_true hobs)
  obtain rfl : read.startTime = st := hst
  rw [← reports_filter_isOwn, filter_isOwn_appended h hd, experience_of_reading hd hr]
  simp only [Tracker.ownAppended, ownEvents, reports_append]
  have hstart : reports (pid, read.startTime) addr
      (if previouslyLive s.drainStale.current pid read then [] else [startedEvent t.now pid read]) = 0 :=
    reports_eq_zero fun e he hkind => by
      split at he
      · cases he
      · obtain rfl := List.mem_singleton.mp he
        cases hkind
  have hgrowth (hist : Option (List Sample)) (snap : ProcessSnapshot) :
      reports (pid, read.startTime) addr (growthEvents t.now pid hist snap) = 0 :=
    reports_eq_zero fun e he hkind => by
      obtain ⟨_, rfl⟩ := mem_growthEvents he
      cases hkind
  have hexit (gone : Option Generation) : reports (pid, read.startTime) addr (exitOf t.now pid gone) = 0 :=
    reports_eq_zero fun e he hkind => by
      obtain ⟨_, _, rfl⟩ := Option.map_eq_some_iff.mp (Option.mem_toList.mp he)
      cases hkind
  rw [hstart, hgrowth, hexit, reports_connectionEvents _ _ (rateSnapshot_startTime _ _ _)]
  simp [Tick.connectionsRead]

/-- A peer that stays: every call observes the generation, and every successful read finds a connection. -/
def StaysConnected (later : List Tick) (key : HistoryKey) (addr : String) : Prop :=
  ∀ u ∈ later, u.WellBehaved ∧ u.observes key ∧
    ∀ conns, u.connectionsRead key = some conns → Connects conns addr

theorem lastConnections_of_stays {past : List Tick} {t : Tick} {key : HistoryKey} {addr : String}
    (hobs : t.observes key) (hnew : NewlyConnected past t key addr) {later : List Tick}
    (hstays : StaysConnected later key addr) :
    ∃ conns, lastConnections (past ++ t :: later) key = some conns ∧ Connects conns addr := by
  induction later using List.reverseRecOn with
  | nil =>
    obtain ⟨-, ⟨conns, hconns, hpeer⟩, -⟩ := hnew
    exact ⟨conns, by rw [lastConnections_concat_of_observes hobs, hconns, Option.some_or], hpeer⟩
  | append_singleton later u ih =>
    obtain ⟨conns, hlast, hpeer⟩ := ih fun x hx => hstays x (List.mem_append_left _ hx)
    obtain ⟨-, hu, hread⟩ := hstays u (by simp)
    rw [← List.cons_append, ← List.append_assoc, lastConnections_concat_of_observes hu, hlast]
    cases hconns : u.connectionsRead key with
    | none => exact ⟨conns, rfl, hpeer⟩
    | some conns' => exact ⟨conns', rfl, hread conns' hconns⟩

/-- In a reachable state, one call reports the peers that are newly connected, each once. -/
theorem reports_of_observes {past : List Tick} {t : Tick} (hw : ∀ u ∈ past ++ [t], u.WellBehaved)
    {key : HistoryKey} (hobs : t.observes key) (addr : String) :
    (reports key addr ((afterRun past).appended t) = 1 ↔ NewlyConnected past t key addr) ∧
      reports key addr ((afterRun past).appended t) ≤ 1 := by
  obtain ⟨pid, st⟩ := key
  have hpast := fun u hu => hw u (List.mem_append_left _ hu)
  have hreports := reports_appended (tracks_run past pid) (hw t (by simp)).2 hobs addr
  rw [seenAt_run hpast] at hreports
  have hnodup := newAddrs_nodup (t.connectionsRead (pid, st))
    ((lastConnections past (pid, st)).map fun conns => (remoteAddrs conns).toFinset)
  have hmem : addr ∈ newAddrs (t.connectionsRead (pid, st))
      ((lastConnections past (pid, st)).map fun conns => (remoteAddrs conns).toFinset) ↔
      NewlyConnected past t (pid, st) addr := by
    rw [mem_newAddrs, NewlyConnected]
    apply and_congr_right
    intro hne
    apply and_congr_right
    intro _
    cases lastConnections past (pid, st) <;> simp [mem_remoteAddrs, hne]
  rw [hreports, ← hmem]
  refine ⟨⟨?_, List.count_eq_one_of_mem hnodup⟩, List.nodup_iff_count_le_one.mp hnodup addr⟩
  intro hone
  exact List.count_pos_iff.mp (by omega)

/-- A generation that is observed has a peer reported when it is newly connected, once among the events that the call
adds to the timeline, and not again while the peer stays. -/
theorem new_connection_reported_once {past : List Tick} {t : Tick} (hw : ∀ u ∈ past ++ [t], u.WellBehaved)
    {key : HistoryKey} (hobs : t.observes key) (addr : String) :
    ((afterRun past).refreshAt t).1.timeline =
        ((afterRun past).timeline ++ (afterRun past).appended t).rtake 1000 ∧
      (reports key addr ((afterRun past).appended t) = 1 ↔ NewlyConnected past t key addr) ∧
      reports key addr ((afterRun past).appended t) ≤ 1 ∧
      ∀ later, (afterRun (past ++ t :: later)).timeline = (runEvents (past ++ t :: later)).rtake 1000 ∧
        (NewlyConnected past t key addr → StaysConnected later key addr →
          reports key addr (runEvents (past ++ t :: later)) = reports key addr (runEvents past) + 1) := by
  obtain ⟨hiff, hle⟩ := reports_of_observes hw hobs addr
  refine ⟨timeline_appended past t, hiff, hle, fun later => ⟨timeline_run _, ?_⟩⟩
  intro hnew hstays
  induction later using List.reverseRecOn with
  | nil =>
    rw [runEvents_concat, reports_append, hiff.mpr hnew]
  | append_singleton later u ih =>
    have hbefore : StaysConnected later key addr := fun x hx => hstays x (List.mem_append_left _ hx)
    obtain ⟨hwu, hu, -⟩ := hstays u (by simp)
    have hrun : ∀ x ∈ past ++ t :: later ++ [u], x.WellBehaved := by
      simp only [List.forall_mem_append, List.forall_mem_cons] at hw ⊢
      exact ⟨⟨hw.1, hw.2.1, fun x hx => (hbefore x hx).1⟩, hwu, List.forall_mem_nil _⟩
    obtain ⟨conns, hlast, hpeer⟩ := lastConnections_of_stays hobs hnew hbefore
    have hno : ¬ NewlyConnected (past ++ t :: later) u key addr := fun h => h.2.2 conns hlast hpeer
    obtain ⟨hiff', hle'⟩ := reports_of_observes hrun hu addr
    have hzero : reports key addr ((afterRun (past ++ t :: later)).appended u) = 0 := by
      have := mt hiff'.mp hno
      omega
    rw [← List.cons_append, ← List.append_assoc, runEvents_concat, reports_append, hzero, Nat.add_zero]
    exact ih hbefore

def connectionsTick (now : Int64) (conns : Result (List NetworkConnection)) : Tick :=
  .stored now ⟨.ok [1], fun _ => .ok (snap 1 0 100 0 1000), fun _ => conns⟩

def webPeer : NetworkConnection := ⟨.tcp, "10.0.0.2:50000", "10.0.0.1:443", .established, 999⟩

/-- A failed read and a row that is there twice do not make the peer new. -/
theorem new_connection_reported_once_three_calls :
    let ticks := [connectionsTick 1000 (.ok [webPeer]),
      connectionsTick 1005 (.error (.permissionDenied "/proc/1/fd")), connectionsTick 1010 (.ok [webPeer, webPeer])]
    (afterRun ticks).timeline = (runEvents ticks).rtake 1000 ∧
      reports (1, 100) "10.0.0.1:443" (runEvents ticks) = 1 := by
  intro ticks
  have hw (now : Int64) (conns : Result (List NetworkConnection)) : (connectionsTick now conns).WellBehaved :=
    ⟨⟨[1], rfl⟩, fun pids hl => Except.ok.inj hl ▸ List.nodup_singleton 1⟩
  have hobs (now : Int64) (conns : Result (List NetworkConnection)) :
      (connectionsTick now conns).observes (1, 100) :=
    observes_iff.mpr ⟨[1], _, rfl, List.mem_singleton_self 1, rfl, rfl⟩
  have hrun : ∀ u ∈ [] ++ [connectionsTick 1000 (.ok [webPeer])], u.WellBehaved := by simp [hw]
  obtain ⟨-, -, -, hlater⟩ := new_connection_reported_once hrun (hobs _ _) "10.0.0.1:443"
  obtain ⟨htimeline, hreports⟩ := hlater [connectionsTick 1005 (.error (.permissionDenied "/proc/1/fd")),
    connectionsTick 1010 (.ok [webPeer, webPeer])]
  refine ⟨htimeline, hreports ?_ ?_⟩
  · exact ⟨by decide, ⟨[webPeer], rfl, webPeer, by simp, rfl⟩, fun conns h => by cases h⟩
  · intro u hu
    rcases List.mem_cons.mp hu with rfl | hu
    · exact ⟨hw _ _, hobs _ _, fun conns h => by cases h⟩
    · obtain rfl := List.mem_singleton.mp hu
      refine ⟨hw _ _, hobs _ _, ?_⟩
      rintro conns ⟨⟩
      exact ⟨webPeer, by simp, rfl⟩

/-- A call that reads the process may report what its connections say. -/
def Tick.ReadsPeer (t : Tick) (addr : String) : Prop :=
  ∃ pid read conns, t.reading pid = some read ∧ t.adapter.connections pid = .ok conns ∧ addr ≠ "" ∧
    Connects conns addr

theorem mem_own_iterate {s : ProcessIntelligence} {t : Tick} {pid : Pid} {e : TimelineEvent} (n : Nat)
    {v : PidPart} (h : e ∈ v.own) : e ∈ ((PidPart.observe s t pid)^[n] v).own := by
  induction n generalizing v with
  | zero => exact h
  | succ n ih =>
    rw [Function.iterate_succ_apply]
    apply ih
    rw [PidPart.observe]
    split
    · exact h
    · exact List.mem_append_left _ h

theorem mem_connectionEvents_of_newAddrs (order : Visit String) (now : Int64) (pid : Pid)
    (snap : ProcessSnapshot) {conns : Result (List NetworkConnection)} {seen : Option (Finset String)}
    {addr : String} (h : addr ∈ newAddrs conns.toOption seen) :
    connectionEvent now pid snap addr ∈ connectionEvents order now pid snap conns seen := by
  cases conns with
  | error e => cases h
  | ok conns => exact List.mem_map_of_mem ((order.mem_run _ _).mpr h)

/-- A listed pid that is read has its new addresses reported, however often it is listed. -/
theorem newConnection_mem_appended {s : ProcessIntelligence} {t : Tick} {pid : Pid} {tr : Tracker}
    (h : Tracks s pid tr) {read : ProcessSnapshot} (hr : t.reading pid = some read) {addr : String}
    (hnew : addr ∈ newAddrs (t.adapter.connections pid).toOption (tr.seenAt read.startTime)) :
    ∃ e ∈ s.appended t, e.kind = .newConnection addr := by
  obtain ⟨pids, hl, hm, hprocess⟩ := reading_eq_some_iff.mp hr
  obtain ⟨n, hn⟩ := Nat.exists_eq_succ_of_ne_zero (List.count_pos_iff.mpr hm).ne'
  -- The first visit still finds the addresses of the state before.
  let v := s.drainStale.passStart.part pid
  let e := connectionEvent t.now pid (rateSnapshot t.now (v.history read.startTime) read) addr
  have hfirst : e ∈ (v.observe s.drainStale t pid).own := by
    rw [PidPart.observe, hprocess]
    apply List.mem_append_right
    apply List.mem_append_right
    apply mem_connectionEvents_of_newAddrs
    rwa [show v.seen read.startTime = tr.seenAt read.startTime from h.drain_seen _]
  have hown : e ∈ ((s.drainStale.scan t pids).part pid).own := by
    rw [scan_part, hn, Nat.succ_eq_add_one, Function.iterate_succ_apply]
    exact mem_own_iterate n hfirst
  refine ⟨e, ?_, rfl⟩
  rw [ProcessIntelligence.appended, hl]
  exact List.mem_append_left _ (List.mem_of_mem_filter hown)

theorem readsPeer_of_mem_iterationEvents {s : ProcessIntelligence} {t : Tick} {p : Pass} {pids : List Pid}
    (hl : t.adapter.listPids = .ok pids) {pid : Pid} (hm : pid ∈ pids) {e : TimelineEvent}
    (he : e ∈ iterationEvents s t p pid) {addr : String} (hkind : e.kind = .newConnection addr) :
    t.ReadsPeer addr := by
  rw [iterationEvents] at he
  split at he
  · cases he
  · rename_i read hprocess
    have hr := reading_eq_some_iff.mpr ⟨pids, hl, hm, hprocess⟩
    rcases List.mem_append.mp he with he | he
    · rcases List.mem_append.mp he with he | he
      · rcases mem_startEvents he with rfl | ⟨_, rfl⟩ <;> cases hkind
      · obtain ⟨_, rfl⟩ := mem_growthEvents he
        cases hkind
    · simp only [connectionEvents] at he
      split at he
      · rename_i conns hconns
        obtain ⟨addr', ha, rfl⟩ := List.mem_map.mp he
        cases hkind
        have ha := List.mem_of_mem_filter ((Visit.mem_run _ _ _).mp ha)
        exact ⟨pid, read, conns, hr, hconns, mem_remoteAddrs.mp ha⟩
      · cases he

theorem readsPeer_of_mem_appended {s : ProcessIntelligence} {t : Tick} {e : TimelineEvent}
    (he : e ∈ s.appended t) {addr : String} (hkind : e.kind = .newConnection addr) : t.ReadsPeer addr := by
  rw [ProcessIntelligence.appended] at he
  cases hl : t.adapter.listPids with
  | error source => simp [hl] at he
  | ok pids =>
    rw [hl] at he
    rcases List.mem_append.mp he with he | he
    · have hpending : ∀ e ∈ (s.drainStale.scan t pids).pendingEvents,
          e.kind = .newConnection addr → t.ReadsPeer addr :=
        forall_pendingEvents fun p pid hm e he hkind => readsPeer_of_mem_iterationEvents hl hm he hkind
      exact hpending e he hkind
    · obtain ⟨key, -, rfl⟩ := List.mem_map.mp he
      cases hkind

theorem reported_of_read {past : List Tick} {t : Tick} {pid : Pid} {read : ProcessSnapshot}
    {conns : List NetworkConnection} {addr : String} (hr : t.reading pid = some read)
    (hconns : t.adapter.connections pid = .ok conns) (ha : addr ∈ remoteAddrs conns)
    (hbefore : addr ∈ ((trackerOf past pid).seenAt read.startTime).getD ∅ →
      ∃ e ∈ runEvents past, e.kind = .newConnection addr) :
    ∃ e ∈ runEvents (past ++ [t]), e.kind = .newConnection addr := by
  rw [runEvents_concat]
  by_cases hseen : addr ∈ ((trackerOf past pid).seenAt read.startTime).getD ∅
  · obtain ⟨e, he, hkind⟩ := hbefore hseen
    exact ⟨e, List.mem_append_left _ he, hkind⟩
  · have hnew : addr ∈ newAddrs (t.adapter.connections pid).toOption
        ((trackerOf past pid).seenAt read.startTime) :=
      List.mem_filter.mpr ⟨by simpa [hconns, Except.toOption] using ha, by simpa using hseen⟩
    obtain ⟨e, he, hkind⟩ := newConnection_mem_appended (tracks_run past pid) hr hnew
    exact ⟨e, List.mem_append_right _ he, hkind⟩

theorem reported_of_seen {ticks : List Tick} {pid : Pid} {st : UInt64} {addr : String}
    (h : addr ∈ ((trackerOf ticks pid).seenAt st).getD ∅) :
    ∃ e ∈ runEvents ticks, e.kind = .newConnection addr := by
  induction ticks using List.reverseRecOn with
  | nil => cases h
  | append_singleton past t ih =>
    have hbefore (h : addr ∈ ((trackerOf past pid).seenAt st).getD ∅) :
        ∃ e ∈ runEvents (past ++ [t]), e.kind = .newConnection addr := by
      obtain ⟨e, he, hkind⟩ := ih h
      exact ⟨e, by rw [runEvents_concat]; exact List.mem_append_left _ he, hkind⟩
    rw [trackerOf_concat, Tick.experience] at h
    split at h
    · exact hbefore h
    · cases hr : t.reading pid with
      | none => simp [hr, Tracker.step, Tracker.seenAt, Tracker.liveAt] at h
      | some read =>
        rw [hr, Tracker.seenAt_step_present] at h
        split at h
        · subst st
          cases hconns : t.adapter.connections pid with
          | error source => exact hbefore (by simpa [hconns, nextSeen] using h)
          | ok conns => exact reported_of_read hr hconns (by simpa [hconns, nextSeen] using h) ih
        · cases h

/-- A run reports exactly the peers that its calls read. -/
theorem newConnection_run_iff (ticks : List Tick) (addr : String) :
    (∃ e ∈ runEvents ticks, e.kind = .newConnection addr) ↔ ∃ t ∈ ticks, t.ReadsPeer addr := by
  induction ticks using List.reverseRecOn with
  | nil => exact ⟨fun ⟨_, he, _⟩ => (by cases he), fun ⟨_, ht, _⟩ => (by cases ht)⟩
  | append_singleton past t ih =>
    constructor
    · rintro ⟨e, he, hkind⟩
      rw [runEvents_concat] at he
      rcases List.mem_append.mp he with he | he
      · obtain ⟨u, hu, hpeer⟩ := ih.mp ⟨e, he, hkind⟩
        exact ⟨u, List.mem_append_left _ hu, hpeer⟩
      · exact ⟨t, by simp, readsPeer_of_mem_appended he hkind⟩
    · rintro ⟨u, hu, hpeer⟩
      rcases List.mem_append.mp hu with hu | hu
      · obtain ⟨e, he, hkind⟩ := ih.mpr ⟨u, hu, hpeer⟩
        exact ⟨e, by rw [runEvents_concat]; exact List.mem_append_left _ he, hkind⟩
      · obtain rfl := List.mem_singleton.mp hu
        obtain ⟨pid, read, conns, hr, hconns, hpeer⟩ := hpeer
        exact reported_of_read hr hconns (mem_remoteAddrs.mpr hpeer) reported_of_seen

end ProcessExplorer.Intelligence
