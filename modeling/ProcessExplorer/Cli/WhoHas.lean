import ProcessExplorer.Cli.Output
import ProcessExplorer.Intelligence.CpuRate
import ProcessExplorer.Intelligence.MockHosts
import ProcessExplorer.Intelligence.WhoHasPort

/-! sher who-has, from the refresh to the lines it prints: which process has a file open or a port bound. -/
namespace ProcessExplorer.Cli
open Library Model Telemetry Telemetry.Linux Intelligence

/-- The search over the open files of every process in the table. A read that fails is passed over. -/
def whoHasFile (s : ProcessIntelligence) (order : Visit Pid) (openFiles : Pid → Result (List OpenFile))
    (pathSubstring : Text) : List (Pid × OpenFile) :=
  (order.run s.current.keys).flatMap fun pid =>
    match openFiles pid with
    | .error _ => []
    | .ok files => (files.filter fun file => Text.contains pathSubstring file.path.toList).map (pid, ·)

structure FoundBy (α : Type) where
  pid : Pid
  processName : String
  found : α

/-- A process that is not in the table has a name that stands for it. -/
def named {α : Type} (missing : String) (s : ProcessIntelligence) (found : List (Pid × α)) : List (FoundBy α) :=
  found.map fun (pid, x) => ⟨pid, ((s.process pid).map (·.name)).getD missing, x⟩

/-- How a protocol is printed with {:?}. -/
def debugProtocol : Protocol → String
  | .tcp => "Tcp"
  | .tcp6 => "Tcp6"
  | .udp => "Udp"
  | .udp6 => "Udp6"
  | .unix => "Unix"

def debugConnectionState : ConnectionState → String
  | .established => "Established"
  | .synSent => "SynSent"
  | .synRecv => "SynRecv"
  | .finWait1 => "FinWait1"
  | .finWait2 => "FinWait2"
  | .timeWait => "TimeWait"
  | .close => "Close"
  | .closeWait => "CloseWait"
  | .lastAck => "LastAck"
  | .listen => "Listen"
  | .closing => "Closing"
  | .unknown => "Unknown"

def fileLine (line : FoundBy OpenFile) : String :=
  alignRight 8 (toString line.pid) ++ "  " ++ alignLeft 20 line.processName ++ "  fd " ++
    alignRight 4 (toString line.found.fd) ++ "  " ++ line.found.path

def portLine (line : FoundBy NetworkConnection) : String :=
  alignRight 8 (toString line.pid) ++ "  " ++ alignLeft 20 line.processName ++ "  " ++
    debugProtocol line.found.protocol ++ " " ++ line.found.localAddr ++ " [" ++
    debugConnectionState line.found.state ++ "]"

def noFileLine (pathSubstring : String) : String :=
  "(no live process has a file matching '" ++ pathSubstring ++ "' open)"

def noPortLine (port : UInt16) : String := "(no live process has port " ++ toString port ++ " bound)"

def printFound {α : Type} (none : String) (line : FoundBy α → String) (found : List (FoundBy α)) : CommandOutput :=
  ⟨0, if found.isEmpty then [none] else found.map line, []⟩

structure WhoHasJson where
  files : List (FoundBy OpenFile) → Except String String
  ports : List (FoundBy NetworkConnection) → Except String String

/-- None when a read of connections panics. -/
def whoHas (toStringPretty : WhoHasJson) (s : ProcessIntelligence) (order : Visit Pid)
    (openFiles : Pid → Result (List OpenFile)) (connections : Pid → Option (Result (List NetworkConnection)))
    (path : Option String) (port : Option UInt16) (json : Bool) : Option CommandOutput :=
  match path, port with
  | some _, some _ => some ⟨2, [], ["sher: pass either a path or --port, not both"]⟩
  | none, none => some ⟨2, [], ["sher: usage: sher who-has <path> | sher who-has --port <port>"]⟩
  | some path, none =>
    let found := whoHasFile s order openFiles path.toList
    some (if json then printJson (toStringPretty.files (named "" s found))
      else printFound (noFileLine path) fileLine (named "?" s found))
  | none, some port => do
    let found ← s.whoHasPort order connections port
    some (if json then printJson (toStringPretty.ports (named "" s found))
      else printFound (noPortLine port) portLine (named "?" s found))

/-- A pass over the table in any order meets every process once. -/
theorem flatMap_run_perm {α β : Type} (order : Visit Pid) {keys : List Pid} {processes : List α} {pid : α → Pid}
    (hkeys : keys.Perm (processes.map pid)) {f : Pid → List β} {g : α → List β}
    (h : ∀ p ∈ processes, f (pid p) = g p) : ((order.run keys).flatMap f).Perm (processes.flatMap g) := by
  have hvisited := ((order.perm keys).trans hkeys).flatMap_right f
  rwa [List.flatMap_map, List.flatMap_congr h] at hvisited

section Session
variable {adapter : LinuxAdapter} {fs : FileSystem} {processes : List KernelProcess}

/-- The first refresh of a session has the processes of the host in its table. -/
theorem table_of_shows (h : ShowsTable adapter fs processes) (call : Call) :
    ∃ s, (refreshOver adapter .new call).run fs = some (s, .ok ()) ∧
      s.current.keys.Perm (processes.map KernelProcess.pid) ∧
      ∀ p ∈ processes, s.process p.pid = some (p.snapshot adapter.pageSize) := by
  obtain ⟨t, ht, hlist, hprocess⟩ : ∃ t : Tick, (refreshOver adapter .new call).run fs =
      some (ProcessIntelligence.new.refreshAt t) ∧ t.adapter.listPids = .ok (processes.map KernelProcess.pid) ∧
      ∀ p ∈ processes, t.adapter.process p.pid = .ok (p.snapshot adapter.pageSize) :=
    ⟨_, refreshOver_of_shows h .new call, listPids_mockOf adapter.pageSize h.distinct, fun p hp =>
      (MockTelemetryAdapter.process_eq_ok_iff _ _ _ _).mpr (lookup_mockOf adapter.pageSize h.distinct hp).1⟩
  have hwell : t.WellBehaved := by
    refine ⟨⟨_, hlist⟩, fun pids hpids => ?_⟩
    obtain rfl := Except.ok.inj (hlist.symm.trans hpids)
    exact h.distinct
  have htable (pid : Pid) : (afterRun [t]).current.lookup pid = t.reading pid := by
    have hlookup := lookup_current_run [] hwell pid
    cases hread : t.reading pid with
    | none => rwa [hread] at hlookup
    | some read => rwa [hread] at hlookup
  refine ⟨afterRun [t], ?_, ?_, fun p hp => ?_⟩
  · rw [ht, afterRun, Machine.run_cons, Machine.run_nil]
    simp only [service, ProcessIntelligence.refreshAt, hlist]
  · refine (List.perm_ext_iff_of_nodup (AList.keys_nodup _) h.distinct).mpr fun pid => ?_
    rw [← AList.mem_keys, ← AList.lookup_isSome, htable]
    constructor
    · intro hsome
      obtain ⟨read, hread⟩ := Option.isSome_iff_exists.mp hsome
      obtain ⟨pids, hpids, hm, -⟩ := reading_eq_some_iff.mp hread
      obtain rfl := Except.ok.inj (hlist.symm.trans hpids)
      exact hm
    · intro hm
      obtain ⟨p, hp, rfl⟩ := List.mem_map.mp hm
      exact Option.isSome_iff_exists.mpr ⟨_, reading_eq_some_iff.mpr ⟨_, hlist, hm, hprocess p hp⟩⟩
  · exact (htable p.pid).trans (reading_eq_some_iff.mpr ⟨_, hlist, List.mem_map_of_mem hp, hprocess p hp⟩)

end Session

def openFilesOn (adapter : LinuxAdapter) (fs : FileSystem) (pid : Pid) : Result (List OpenFile) :=
  (adapter.openFiles pid).resultOn fs

theorem portMatches_eq {connections : Pid → Option (Result (List NetworkConnection))} {suffix : Text} {pids : List Pid}
    {conns : Pid → List NetworkConnection} (h : ∀ pid ∈ pids, connections pid = some (.ok (conns pid))) :
    portMatches connections suffix pids =
      some (pids.flatMap fun pid => ((conns pid).filter (suffix <:+ ·.localAddr.toList)).map (pid, ·)) := by
  induction pids with
  | nil => rfl
  | cons pid pids ih =>
    obtain ⟨hpid, hpids⟩ := List.forall_mem_cons.mp h
    rw [portMatches, hpid]
    simp [ih hpids]

/-- On a host that stands still the command prints a line for every descriptor whose target has the substring, or for
every socket whose local address ends like the port, each once and under the name of its process. -/
theorem who_has_prints_all {adapter : LinuxAdapter} {fs : FileSystem} {processes : List KernelProcess}
    (h : ShowsTable adapter fs processes) (toStringPretty : WhoHasJson) (call : Call) (order : Visit Pid) :
    ∃ s, (refreshOver adapter .new call).run fs = some (s, .ok ()) ∧
      (∀ path : String, ∃ found, whoHas toStringPretty s order (openFilesOn adapter fs)
          (readsOn adapter fun _ => fs) (some path) none false = some (printFound (noFileLine path) fileLine found) ∧
        found.Perm (processes.flatMap fun p => ((p.openFiles adapter.root fs).filter fun file =>
          Text.contains path.toList file.path.toList).map fun file => ⟨p.pid, p.stat.stat.comm, file⟩)) ∧
      ∀ port : UInt16, ∃ found, whoHas toStringPretty s order (openFilesOn adapter fs)
          (readsOn adapter fun _ => fs) none (some port) false = some (printFound (noPortLine port) portLine found) ∧
        found.Perm (processes.flatMap fun p => (p.connections.filter fun conn =>
          portSuffix port <:+ conn.localAddr.toList).map fun conn => ⟨p.pid, p.stat.stat.comm, conn⟩) := by
  obtain ⟨s, hrun, hkeys, htable⟩ := table_of_shows h call
  refine ⟨s, hrun, fun path => ⟨_, rfl, ?_⟩, fun port => ?_⟩
  · rw [named, whoHasFile, List.map_flatMap]
    refine flatMap_run_perm order hkeys fun p hp => ?_
    have hfiles : openFilesOn adapter fs p.pid = .ok (p.openFiles adapter.root fs) := (h.shown p hp).listOpenFiles_eq
    simp [hfiles, htable p hp, KernelProcess.snapshot]
  · have hread (p : KernelProcess) (hp : p ∈ processes) :
        readsOn adapter (fun _ => fs) p.pid = some (.ok p.connections) :=
      readsOn_eq_ok_iff.mpr ((h.shown p hp).connections_iff.mpr (h.plainNames p hp))
    have hreads : ∀ pid ∈ order.run s.current.keys, ∃ conns, readsOn adapter (fun _ => fs) pid = some (.ok conns) := by
      intro pid hm
      obtain ⟨p, hp, rfl⟩ := List.mem_map.mp (hkeys.subset ((order.mem_run _ _).mp hm))
      exact ⟨p.connections, hread p hp⟩
    choose! conns hconns using hreads
    refine ⟨_, by rw [whoHas, ProcessIntelligence.whoHasPort, portMatches_eq hconns]; rfl, ?_⟩
    rw [named, List.map_flatMap]
    refine flatMap_run_perm order hkeys fun p hp => ?_
    have hm : p.pid ∈ order.run s.current.keys :=
      (order.mem_run _ _).mpr (hkeys.symm.subset (List.mem_map_of_mem hp))
    have heq : conns p.pid = p.connections := by simpa [hread p hp] using (hconns p.pid hm).symm
    simp [heq, htable p hp, KernelProcess.snapshot]

theorem printFound_of_map_eq {α : Type} {none text : String} {line : FoundBy α → String} {found : List (FoundBy α)}
    (h : found.map line = [text]) : printFound none line found = ⟨0, [text], []⟩ := by
  cases found with
  | nil => cases h
  | cons first found => rw [printFound, h]; rfl

/-- The daemon's device and its socket on port 22. -/
theorem who_has_prints_all_sshd :
    let toStringPretty : WhoHasJson := ⟨fun _ => .ok "[]", fun _ => .ok "[]"⟩
    ∃ s, (refreshOver hostAdapter .new daemonRefresh).run sshdFiles = some (s, .ok ()) ∧
      whoHas toStringPretty s .stored (openFilesOn hostAdapter sshdFiles) (readsOn hostAdapter fun _ => sshdFiles)
        (some "null") none false = some ⟨0, ["      42  sshd                  fd    0  /dev/null"], []⟩ ∧
      whoHas toStringPretty s .stored (openFilesOn hostAdapter sshdFiles) (readsOn hostAdapter fun _ => sshdFiles)
        none (some 22) false = some ⟨0, ["      42  sshd                  Tcp 0.0.0.0:22 [Listen]"], []⟩ := by
  intro toStringPretty
  have hshows : ShowsTable hostAdapter sshdFiles [sshd] := sshdSteps_shown _ List.mem_cons_self
  obtain ⟨s, hrun, hfiles, hports⟩ := who_has_prints_all hshows toStringPretty daemonRefresh .stored
  refine ⟨s, hrun, ?_, ?_⟩
  · obtain ⟨found, hfound, hperm⟩ := hfiles "null"
    rw [hfound, printFound_of_map_eq]
    refine List.perm_singleton.mp ((hperm.map fileLine).trans (.of_eq ?_))
    decide +kernel
  · obtain ⟨found, hfound, hperm⟩ := hports 22
    rw [hfound, printFound_of_map_eq]
    refine List.perm_singleton.mp ((hperm.map portLine).trans (.of_eq ?_))
    decide +kernel

end ProcessExplorer.Cli
