import ProcessExplorer.Intelligence.Connections
import ProcessExplorer.Telemetry.Linux.Adapter

/-! Sockets that have no peer, from the rows of /proc/[pid]/net to the events of a run. The filter of
refresh_at drops empty addresses, and no row of these files has one. -/
namespace ProcessExplorer.Intelligence
open Library Model Telemetry Telemetry.Linux

/-- One call of refresh_at over the Linux adapter. Anything may change between two accesses; a read of
connections looks at no file twice, so one file system says what it met. -/
structure LinuxCall (adapter : LinuxAdapter) where
  tick : Tick
  files : Pid → FileSystem
  listed : ∃ transcript, adapter.listPids.run.Reaches transcript (.pure tick.adapter.listPids)
  processRead : ∀ pid, ∃ transcript,
    (adapter.process pid).run.Reaches transcript (.pure (tick.adapter.process pid))
  connectionsRead : ∀ pid,
    Procfs.resultOn (files pid) (adapter.connections pid).run = (tick.adapter.connections pid).map some

/-- The call reads a process that owns a socket with an all-zero remote field. -/
def LinuxCall.ReadsUnspecified {adapter : LinuxAdapter} (call : LinuxCall adapter) : Prop :=
  ∃ pid read conns, call.tick.reading pid = some read ∧ call.tick.adapter.connections pid = .ok conns ∧
    OwnsUnspecified adapter.root pid (call.files pid)

theorem LinuxCall.readsUnspecified_iff {adapter : LinuxAdapter} (call : LinuxCall adapter) :
    call.ReadsUnspecified ↔ ∃ addr, UnspecifiedText addr ∧ call.tick.ReadsPeer addr := by
  have hreturns {pid : Pid} {conns : List NetworkConnection}
      (hconns : call.tick.adapter.connections pid = .ok conns) :
      (readConnections adapter.root pid).Returns (call.files pid) conns := by
    have h := call.connectionsRead pid
    rwa [hconns] at h
  constructor
  · rintro ⟨pid, read, conns, hr, hconns, howns⟩
    obtain ⟨conn, hm, htext⟩ := (readConnections_unspecified_iff (hreturns hconns)).mpr howns
    have hunspecified := (unspecifiedText_iff conn.remoteAddr).mpr htext
    refine ⟨conn.remoteAddr, hunspecified, pid, read, conns, hr, hconns, ?_, conn, hm, rfl⟩
    rcases htext with htext | htext <;> rw [htext] <;> decide
  · rintro ⟨addr, hunspecified, pid, read, conns, hr, hconns, -, conn, hm, rfl⟩
    have htext := (unspecifiedText_iff conn.remoteAddr).mp hunspecified
    have howns := (readConnections_unspecified_iff (hreturns hconns)).mp ⟨conn, hm, htext⟩
    exact ⟨pid, read, conns, hr, hconns, howns⟩

/-- A run over the Linux adapter, whose timeline is the newest 1000 of its events, reports no unspecified address as a
peer exactly when none of its calls reads a process that owns a socket without one. -/
theorem unspecified_peer_never_reported_iff (adapter : LinuxAdapter) (calls : List (LinuxCall adapter)) :
    (afterRun (calls.map LinuxCall.tick)).timeline = (runEvents (calls.map LinuxCall.tick)).rtake 1000 ∧
      ((∀ e ∈ runEvents (calls.map LinuxCall.tick), ∀ addr, e.kind = .newConnection addr →
        ¬ UnspecifiedText addr) ↔
        ∀ call ∈ calls, ¬ call.ReadsUnspecified) := by
  refine ⟨timeline_run _, ?_⟩
  constructor
  · intro h call hcall hreads
    obtain ⟨addr, hunspecified, hpeer⟩ := call.readsUnspecified_iff.mp hreads
    obtain ⟨e, he, hkind⟩ := (newConnection_run_iff _ addr).mpr ⟨call.tick, List.mem_map_of_mem hcall, hpeer⟩
    exact h e he addr hkind hunspecified
  · intro h e he addr hkind hunspecified
    obtain ⟨tick, htick, hpeer⟩ := (newConnection_run_iff _ addr).mp ⟨e, he, hkind⟩
    obtain ⟨call, hcall, rfl⟩ := List.mem_map.mp htick
    exact h call hcall (call.readsUnspecified_iff.mpr ⟨addr, hunspecified, hpeer⟩)

def emptyFiles : FileSystem
  | .readFile _ => .error .notFound
  | .readLink _ => .error .notFound
  | .readDir _ => .error .notFound
  | .metadata _ => .error .notFound

/-- A daemon that listens on port 22 of any address. -/
def listeningDaemon : FileSystem
  | .readFile path => match path with
    | "/proc/42/stat" => .ok "42 (sshd) S 1 42 42 0 -1 0 0 0 0 0 7 3 0 0 20 0 1 0 98765 0 0\n".toUTF8
    | "/proc/42/status" => .ok "Uid:\t0\t0\t0\t0\nGid:\t0\t0\t0\t0\nVmSwap:\t0 kB\n".toUTF8
    | "/proc/42/statm" => .ok "3000 1200 800 100 0 300 0\n".toUTF8
    | "/proc/42/net/tcp" => .ok ("sl local_address rem_address st tx_queue rx_queue tr tm->when uid inode\n" ++
        "0: 00000000:0016 00000000:0000 0A 00000000:00000000 00:00000000 00000000 0 0 999 1\n").toUTF8
    | _ => .error .notFound
  | .readLink path => match path with
    | "/proc/42/fd/3" => .ok "socket:[999]"
    | _ => .error .notFound
  | .readDir path => match path with
    | "/proc" => .ok [.ok (some "42".toList)]
    | "/proc/42/fd" => .ok [.ok (some "3".toList)]
    | _ => .error .notFound
  | .metadata _ => .error .notFound

def daemonFiles (pid : Pid) : FileSystem := if pid = 42 then listeningDaemon else emptyFiles

def listeningSocket : NetworkConnection := ⟨.tcp, "0.0.0.0:22", "0.0.0.0:0", .listen, 999⟩

def daemonCall : LinuxCall hostAdapter where
  tick := .stored 1000 {
    listPids := hostAdapter.listPids.resultOn listeningDaemon
    process := fun pid => (hostAdapter.process pid).resultOn (daemonFiles pid)
    connections := fun pid =>
      if pid = 42 then .ok [listeningSocket] else .error (.io (procPath "/proc" pid "fd") .notFound) }
  files := daemonFiles
  listed := ⟨_, Interaction.reaches_run listeningDaemon _⟩
  processRead pid := ⟨_, Interaction.reaches_run (daemonFiles pid) _⟩
  connectionsRead pid := by
    by_cases hpid : pid = 42
    · subst hpid
      decide +kernel
    · simp only [Tick.stored, daemonFiles, hpid, if_false]
      rfl

theorem daemonCall_listPids : daemonCall.tick.adapter.listPids = .ok [42] := by decide +kernel

theorem daemonCall_reading : ∃ read, daemonCall.tick.reading 42 = some read := by
  have hread : ∃ read, daemonCall.tick.adapter.process 42 = .ok read := exists_eq_ok (by decide +kernel)
  obtain ⟨read, hread⟩ := hread
  exact ⟨read, reading_eq_some_iff.mpr ⟨[42], daemonCall_listPids, List.mem_singleton_self 42, hread⟩⟩

/-- The listening socket of the daemon is reported as a connection. -/
theorem listening_socket_reported :
    ∃ e ∈ runEvents [daemonCall.tick], e.kind = .newConnection "0.0.0.0:0" ∧ UnspecifiedText "0.0.0.0:0" := by
  obtain ⟨read, hreading⟩ := daemonCall_reading
  have hpeer : daemonCall.tick.ReadsPeer "0.0.0.0:0" :=
    ⟨42, read, [listeningSocket], hreading, rfl, by decide, listeningSocket, List.mem_singleton_self _, rfl⟩
  obtain ⟨e, he, hkind⟩ := (newConnection_run_iff [daemonCall.tick] "0.0.0.0:0").mpr
    ⟨daemonCall.tick, List.mem_singleton_self _, hpeer⟩
  exact ⟨e, he, hkind, (unspecifiedText_iff _).mpr (.inl rfl)⟩

end ProcessExplorer.Intelligence
