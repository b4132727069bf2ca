import ProcessExplorer.Intelligence.HistoryLog
import ProcessExplorer.Intelligence.UnspecifiedPeers
import ProcessExplorer.Telemetry.Linux.Procfs.LocalPort

/-! Who has a port: the search over the connections of every live process, and when what it
finds over the Linux adapter are the sockets that are bound to the port. -/
namespace ProcessExplorer.Intelligence
open Library Model Telemetry Telemetry.Linux

/-- The pass of who_has_port over the pids; `none` where a read panics. -/
def portMatches (connections : Pid → Option (Result (List NetworkConnection))) (suffix : Text) :
    List Pid → Option (List (Pid × NetworkConnection))
  | [] => some []
  | pid :: pids =>
    match connections pid with
    | none => none
    | some (.error _) => portMatches connections suffix pids
    | some (.ok conns) => (portMatches connections suffix pids).map fun found =>
        (conns.filter (suffix <:+ ·.localAddr.toList)).map (pid, ·) ++ found

def ProcessIntelligence.whoHasPort (s : ProcessIntelligence) (order : Visit Pid)
    (connections : Pid → Option (Result (List NetworkConnection))) (port : UInt16) :
    Option (List (Pid × NetworkConnection)) :=
  portMatches connections (portSuffix port) (order.run s.current.keys)

section Search
variable {connections : Pid → Option (Result (List NetworkConnection))} {suffix : Text} {pids : List Pid}

theorem portMatches_eq_none_iff :
    portMatches connections suffix pids = none ↔ ∃ pid ∈ pids, connections pid = none := by
  induction pids with
  | nil => simp [portMatches]
  | cons pid pids ih =>
    rw [portMatches]
    rcases hread : connections pid with _ | e | conns
    · simp [hread]
    · simp [hread, ih]
    · simp [hread, ih]

theorem mem_portMatches {found : List (Pid × NetworkConnection)}
    (h : portMatches connections suffix pids = some found) (pid : Pid) (conn : NetworkConnection) :
    (pid, conn) ∈ found ↔ pid ∈ pids ∧ ∃ conns, connections pid = some (.ok conns) ∧ conn ∈ conns ∧
      suffix <:+ conn.localAddr.toList := by
  induction pids generalizing found with
  | nil =>
    cases h
    simp
  | cons head pids ih =>
    rw [portMatches] at h
    rcases hread : connections head with _ | e | conns
    · rw [hread] at h
      cases h
    · rw [hread] at h
      rw [ih h, List.mem_cons]
      constructor
      · exact fun hfound => ⟨.inr hfound.1, hfound.2⟩
      · rintro ⟨rfl | hm, conns, hok, hconn⟩
        · cases hread.symm.trans hok
        · exact ⟨hm, conns, hok, hconn⟩
    · rw [hread] at h
      obtain ⟨rest, hrest, rfl⟩ := Option.map_eq_some_iff.mp h
      rw [List.mem_append, ih hrest, List.mem_cons]
      constructor
      · rintro (hhead | ⟨hm, hfound⟩)
        · obtain ⟨conn', hconn, heq⟩ := List.mem_map.mp hhead
          obtain ⟨rfl, rfl⟩ := Prod.mk.inj heq
          obtain ⟨hm, hsuffix⟩ := List.mem_filter.mp hconn
          exact ⟨.inl rfl, conns, hread, hm, of_decide_eq_true hsuffix⟩
        · exact ⟨.inr hm, hfound⟩
      · rintro ⟨rfl | hm, conns', hok, hconn, hsuffix⟩
        · obtain rfl := Except.ok.inj (Option.some.inj (hread.symm.trans hok))
          exact .inl (List.mem_map_of_mem (List.mem_filter.mpr ⟨hconn, decide_eq_true hsuffix⟩))
        · exact .inr ⟨hm, conns', hok, hconn, hsuffix⟩

end Search

/-- The connections read of a process, over what it meets: `none` where it panics. -/
def readsOn (adapter : LinuxAdapter) (files : Pid → FileSystem) (pid : Pid) :
    Option (Result (List NetworkConnection)) :=
  match Procfs.resultOn (files pid) (adapter.connections pid).run with
  | .error e => some (.error e)
  | .ok none => none
  | .ok (some conns) => some (.ok conns)

/-- What who_has_port returns is every TCP and UDP socket of a live process that is bound to the port, and
nothing else. -/
def ReturnsBound (adapter : LinuxAdapter) (files : Pid → FileSystem) (s : ProcessIntelligence) (order : Visit Pid)
    (port : UInt16) : Prop :=
  ∃ found, s.whoHasPort order (readsOn adapter files) port = some found ∧
    ∀ pid conn, (pid, conn) ∈ found ↔ pid ∈ s.current ∧ ∃ conns,
      (adapter.connections pid).Returns (files pid) conns ∧ conn ∈ conns ∧
      conn.protocol ∈ [.tcp, .tcp6, .udp, .udp6] ∧ BoundTo adapter.root pid (files pid) port conn

theorem readsOn_eq_ok_iff {adapter : LinuxAdapter} {files : Pid → FileSystem} {pid : Pid}
    {conns : List NetworkConnection} :
    readsOn adapter files pid = some (.ok conns) ↔ (adapter.connections pid).Returns (files pid) conns := by
  rw [readsOn, ProcfsPanics.Returns]
  rcases Procfs.resultOn (files pid) (adapter.connections pid).run with e | _ | conns' <;> simp

/-- In every state that a run over the Linux adapter reaches, who_has_port returns what is bound to the port
exactly when no read of a live process panics, and none that succeeds finds a Unix socket whose path ends like
an address with this port. -/
theorem who_has_port_exact_iff (adapter : LinuxAdapter) (calls : List (LinuxCall adapter))
    (files : Pid → FileSystem) (order : Visit Pid) (port : UInt16) :
    ReturnsBound adapter files (afterRun (calls.map LinuxCall.tick)) order port ↔
      ∀ pid ∈ (afterRun (calls.map LinuxCall.tick)).current, readsOn adapter files pid ≠ none ∧
        ((∃ conns, (adapter.connections pid).Returns (files pid) conns) →
          ¬ OwnsUnixPath adapter.root pid (files pid) (portSuffix port)) := by
  generalize afterRun (calls.map LinuxCall.tick) = s
  have hlisted (pid : Pid) : pid ∈ order.run s.current.keys ↔ pid ∈ s.current :=
    (order.mem_run _ _).trans AList.mem_keys.symm
  constructor
  · rintro ⟨found, hfound, hexact⟩ pid hpid
    refine ⟨?_, ?_⟩
    · intro hpanic
      have hnone : s.whoHasPort order (readsOn adapter files) port = none :=
        portMatches_eq_none_iff.mpr ⟨pid, (hlisted pid).mpr hpid, hpanic⟩
      cases hfound.symm.trans hnone
    · rintro ⟨conns, hconns⟩ hpath
      obtain ⟨conn, hm, hunix, hsuffix⟩ := hpath.read hconns
      have hmatch := (mem_portMatches hfound pid conn).mpr
        ⟨(hlisted pid).mpr hpid, conns, readsOn_eq_ok_iff.mpr hconns, hm, hsuffix⟩
      obtain ⟨-, _, -, -, hprotocol, -⟩ := (hexact pid conn).mp hmatch
      rw [hunix] at hprotocol
      exact absurd hprotocol (by decide)
  · intro hgood
    have hsome : s.whoHasPort order (readsOn adapter files) port ≠ none := by
      intro hnone
      obtain ⟨pid, hpid, hpanic⟩ := portMatches_eq_none_iff.mp hnone
      exact (hgood pid ((hlisted pid).mp hpid)).1 hpanic
    obtain ⟨found, hfound⟩ := Option.ne_none_iff_exists'.mp hsome
    refine ⟨found, hfound, fun pid conn => ?_⟩
    rw [mem_portMatches hfound, hlisted]
    constructor
    · rintro ⟨hpid, conns, hread, hm, hsuffix⟩
      have hconns := readsOn_eq_ok_iff.mp hread
      have hpath := (hgood pid hpid).2 ⟨conns, hconns⟩
      have hbound := (boundTo_or_unix hconns hm hsuffix).resolve_right hpath
      exact ⟨hpid, conns, hconns, hm, hbound.protocol, hbound⟩
    · rintro ⟨hpid, conns, hconns, hm, -, hbound⟩
      exact ⟨hpid, conns, readsOn_eq_ok_iff.mpr hconns, hm, hbound.isSuffix⟩

def cachingDaemon : FileSystem
  | .readFile path => match path with
    | "/proc/42/net/unix" => .ok ("Num RefCount Protocol Flags Type St Inode Path\n" ++
        "0: 00000002 00000000 00010000 0001 01 1000 /run/cache:80\n").toUTF8
    | path => listeningDaemon (.readFile path)
  | .readLink path => match path with
    | "/proc/42/fd/4" => .ok "socket:[1000]"
    | path => listeningDaemon (.readLink path)
  | .readDir path => match path with
    | "/proc/42/fd" => .ok [.ok (some "3".toList), .ok (some "4".toList)]
    | path => listeningDaemon (.readDir path)
  | .metadata path => listeningDaemon (.metadata path)

theorem daemon_live : (42 : Pid) ∈ (afterRun [daemonCall.tick]).current := by
  obtain ⟨read, hreading⟩ := daemonCall_reading
  have hdistinct : daemonCall.tick.Distinct := by
    intro pids hlisted
    obtain rfl := Except.ok.inj (daemonCall_listPids.symm.trans hlisted)
    exact List.nodup_singleton 42
  have hw : ∀ t ∈ [daemonCall.tick], t.WellBehaved := by
    intro t ht
    obtain rfl := List.mem_singleton.mp ht
    exact ⟨⟨[42], daemonCall_listPids⟩, hdistinct⟩
  have hlive := live_run hw 42
  rw [List.getLast?_singleton, Option.bind_some, hreading] at hlive
  obtain ⟨g, hg, -⟩ := Option.map_eq_some_iff.mp hlive
  rw [← AList.lookup_isSome, (tracks_run [daemonCall.tick] 42).live, hg]
  rfl

/-- The Unix socket is returned as one that is bound to port 80. -/
theorem unix_socket_has_port : ¬ ReturnsBound hostAdapter (fun _ => cachingDaemon)
    (afterRun ([daemonCall].map LinuxCall.tick)) .stored 80 := by
  have hread : (hostAdapter.connections 42).Returns cachingDaemon
      [listeningSocket, ⟨.unix, "/run/cache:80", "", .unknown, 1000⟩] := by
    rw [ProcfsPanics.Returns]
    decide +kernel
  rintro ⟨found, hfound, hexact⟩
  have hmatch := (mem_portMatches hfound 42 ⟨.unix, "/run/cache:80", "", .unknown, 1000⟩).mpr
    ⟨(Visit.mem_run _ _ _).mpr (AList.mem_keys.mp daemon_live), _, readsOn_eq_ok_iff.mpr hread, by simp, by decide⟩
  obtain ⟨-, _, -, -, hprotocol, -⟩ := (hexact _ _).mp hmatch
  exact absurd hprotocol (by decide)

end ProcessExplorer.Intelligence
