import ProcessExplorer.Telemetry.Linux.Adapter
import ProcessExplorer.Telemetry.Linux.Procfs.Cmdline
import ProcessExplorer.Telemetry.Linux.Procfs.InetTable
import ProcessExplorer.Telemetry.Linux.Procfs.ProcessFiles
import ProcessExplorer.Telemetry.Linux.Procfs.StatLine
import ProcessExplorer.Telemetry.Linux.Procfs.UnixNames
import ProcessExplorer.Telemetry.Linux.Threads

/-! A process as the kernel has it, the files in which /proc shows it, and what the adapter reads back: the
snapshot and the connections of that process. -/
namespace ProcessExplorer.Telemetry.Linux
open Library Model

/-- What a descriptor links to. -/
inductive FdTarget where
  | socket (inode : UInt64)
  | other (target : { target : String // ¬ "socket:[".toList <+: target.toList })

namespace FdTarget

def text : FdTarget → String
  | socket inode => String.ofList ("socket:[".toList ++ (Text.ofInt inode.toNat ++ [']']))
  | other target => target.1

def inode : FdTarget → Option UInt64
  | socket inode => some inode
  | other _ => none

/-- The descriptor as an open file; what kind it is of is for the file system to say. -/
def file (fs : FileSystem) (dir : String) (fd : Int32) (target : FdTarget) : OpenFile :=
  ⟨fd, target.text, ((classify (join dir (toString fd)) target.text).resultOn fs).toOption.getD .unknown⟩

end FdTarget

/-- The one group of a process on a host with the v2 hierarchy only; its controllers may be unreadable. -/
structure V2Cgroup where
  path : Text
  controllers : Option (List Text)
  oneLine : '\n' ∉ path
  lastChar : path.getLast? ≠ some '\r'
  words : ∀ names ∈ controllers, ∀ name ∈ names, Text.IsWord name

namespace V2Cgroup

/-- Its controllers on one line. -/
def controllersText : List Text → Text
  | [] => ['\n']
  | name :: names => name ++ names.flatMap (' ' :: ·) ++ ['\n']

def info (group : V2Cgroup) : CgroupInfo where
  version := .v2
  path := String.ofList group.path
  controllers := (group.controllers.getD []).map String.ofList

/-- Where the controllers of a group are listed. -/
def controllersPath (group : V2Cgroup) (sysRoot : String) : String :=
  join (join sysRoot (String.ofList (Text.trimStartMatches ['/'] group.path))) "cgroup.controllers"

end V2Cgroup

def UnixSocket.connection (socket : UnixSocket) : NetworkConnection :=
  ⟨.unix, String.ofList socket.text, "", .unknown, socket.inode⟩

/-- The socket under the first word of its name, which is all that is read of it. -/
def UnixSocket.firstWord (socket : UnixSocket) : NetworkConnection :=
  ⟨.unix, String.ofList ((Text.splitWhitespace socket.text).head?.getD []), "", .unknown, socket.inode⟩

theorem UnixSocket.firstWord_eq_iff (socket : UnixSocket) :
    socket.firstWord = socket.connection ↔ ∀ c ∈ socket.text, Text.isWhitespace c = false := by
  simp only [firstWord, connection, NetworkConnection.mk.injEq, String.ofList_inj, true_and, and_true]
  cases hname : socket.name with
  | none => simp [text, hname, Text.splitWhitespace]
  | some name =>
    rw [text, hname, Option.getD_some]
    exact head?_splitWhitespace_eq_iff (socket.named name hname)

/-- What there is to know of a process; smaps_rollup, cgroup and the tables of net may be missing. -/
structure KernelProcess where
  stat : StatFile
  status : StatusFile
  args : List String
  exe : Except ErrorKind String
  size : UInt64
  resident : UInt64
  furtherSizes : List UInt64
  rollup : Option RollupFile
  cgroup : Option V2Cgroup
  fds : List (Int32 × FdTarget)
  inet : Protocol → Option (List InetSocket)
  unix : Option (List UnixSocket)
  argsText : ∀ arg ∈ args, '\x00' ∉ arg.toList

namespace KernelProcess
variable (p : KernelProcess)

def pid : Pid := p.stat.stat.id

def memory (pageSize : UInt64) : MemoryBreakdown :=
  match p.rollup with
  | some file => {
      rss := file.bytes "Rss"
      vsz := p.size * pageSize
      anonymous := file.bytes "Anonymous"
      fileBacked := saturatingSub (file.bytes "Rss") (file.bytes "Anonymous")
      shared := file.bytes "Shared_Clean" + file.bytes "Shared_Dirty"
      priv := file.bytes "Private_Clean" + file.bytes "Private_Dirty"
      swap := file.bytes "Swap" }
  | none => {
      rss := p.resident * pageSize
      vsz := p.size * pageSize
      anonymous := 0
      fileBacked := 0
      shared := 0
      priv := 0
      swap := p.status.swap.getD 0 * 1024 }

/-- The process as a snapshot. -/
def snapshot (pageSize : UInt64) : ProcessSnapshot where
  pid := p.pid
  ppid := p.stat.stat.ppid
  pgid := p.stat.stat.pgrp
  sid := p.stat.stat.session
  name := p.stat.stat.comm
  cmdline := p.args
  exe := p.exe.toOption
  state := .fromProcChar p.stat.stat.stateChar
  uid := p.status.uid
  gid := p.status.gid
  startTime := p.stat.stat.starttime
  cpu := ⟨p.stat.stat.utime, p.stat.stat.stime, 0, 0, 0⟩
  memory := p.memory pageSize
  threadCount := p.stat.stat.numThreads
  openFileCount := UInt32.ofNat p.fds.length
  cgroup := p.cgroup.map V2Cgroup.info

def openFiles (root : String) (fs : FileSystem) : List OpenFile :=
  p.fds.map fun fd => fd.2.file fs (procPath root p.pid "fd") fd.1

/-- The inodes of its sockets. -/
def inodes : List UInt64 := p.fds.filterMap fun fd => fd.2.inode

/-- The sockets of its network namespace that it holds open, given how a Unix socket is taken. -/
def connectionsBy (unix : UnixSocket → NetworkConnection) : List NetworkConnection :=
  (netFiles.flatMap fun file => ((p.inet file.2).getD []).map (·.connection file.2)).filter (·.inode ∈ p.inodes) ++
    ((p.unix.getD []).map unix).filter (·.inode ∈ p.inodes)

def connections : List NetworkConnection := p.connectionsBy UnixSocket.connection

/-- No argument is empty. -/
def FullArgs : Prop := ∀ arg ∈ p.args, arg ≠ ""

/-- The names of its Unix sockets have no white space. -/
def PlainNames : Prop :=
  ∀ socket ∈ p.unix.getD [], socket.inode ∈ p.inodes → ∀ c ∈ socket.text, Text.isWhitespace c = false

/-- The files of the process, as the adapter finds them. -/
structure Shown (adapter : LinuxAdapter) (fs : FileSystem) (p : KernelProcess) : Prop where
  stat : fs.text (procPath adapter.root p.pid "stat") = .ok (statLine p.stat.stat p.stat.unread ++ ['\n'])
  status : fs.text (procPath adapter.root p.pid "status") = .ok p.status.text
  cmdline : fs (.readFile (procPath adapter.root p.pid "cmdline")) = .ok (cmdlineFile p.args)
  exe : fs (.readLink (procPath adapter.root p.pid "exe")) = p.exe
  statm : fs.text (procPath adapter.root p.pid "statm") = .ok (statmText p.size p.resident p.furtherSizes)
  rollup : fs.text (procPath adapter.root p.pid "smaps_rollup") =
    p.rollup.elim (.error .notFound) fun file => .ok file.text
  cgroup : fs.text (procPath adapter.root p.pid "cgroup") =
    p.cgroup.elim (.error .notFound) fun group => .ok (cgroupText group.path)
  controllers : ∀ group ∈ p.cgroup, (fs.text (group.controllersPath adapter.sysRoot)).toOption =
    group.controllers.map V2Cgroup.controllersText
  fd : fs (.readDir (procPath adapter.root p.pid "fd")) = .ok (p.fds.map fun fd => .ok (some (Text.ofInt fd.1.toInt)))
  links : ∀ fd ∈ p.fds,
    fs (.readLink (join (procPath adapter.root p.pid "fd") (toString fd.1))) = .ok fd.2.text
  inet : ∀ file ∈ netFiles, ∃ header, '\n' ∉ header ∧
    fs.text (join (procPath adapter.root p.pid "net") file.1) =
      (p.inet file.2).elim (.error .notFound) fun sockets => .ok (inetTable header sockets)
  unix : fs.text (join (procPath adapter.root p.pid "net") "unix") =
    p.unix.elim (.error .notFound) fun sockets => .ok (unixTable sockets)

end KernelProcess

section Descriptors
variable (fs : FileSystem) {dir : String}

theorem resultOn_listNumericEntries {names : List (Option Text)} (h : fs (.readDir dir) = .ok (names.map .ok)) :
    (listNumericEntries dir).resultOn fs = .ok (names.filterMap fun name => name.bind Text.parseI32) := by
  rw [listNumericEntries, Procfs.resultOn_bind, Procfs.resultOn_readDir, ok_bind, h]
  dsimp only
  clear h
  induction names with
  | nil => rfl
  | cons name names ih =>
    rw [List.map_cons, listNumericEntries.collect, Procfs.resultOn_bind, ih, ok_bind]
    cases hid : name.bind Text.parseI32 with
    | none => simp [hid]
    | some id => simp [hid]

/-- A directory with an entry for each of some ids. -/
theorem listNumericEntries_ids {α : Type} {entries : List α} {id : α → Pid}
    (h : fs (.readDir dir) = .ok (entries.map fun entry => .ok (some (Text.ofInt (id entry).toInt)))) :
    (listNumericEntries dir).resultOn fs = .ok (entries.map id) := by
  have hnames : fs (.readDir dir) =
      .ok ((entries.map fun entry => some (Text.ofInt (id entry).toInt)).map .ok) := by
    rw [h, List.map_map]
    rfl
  rw [resultOn_listNumericEntries fs hnames, List.filterMap_map, ← List.filterMap_eq_map]
  exact congrArg Except.ok (List.filterMap_congr fun entry _ => Text.parseI32_ofInt (id entry))

theorem socketInode_text (target : FdTarget) : socketInode target.text.toList = target.inode := by
  cases target with
  | socket inode =>
    have hstarts (t : Text) : "socket:[".toList <+: "socket:[".toList ++ t := List.prefix_append _ t
    have hdrop (t : Text) : ("socket:[".toList ++ t).drop 8 = t := List.drop_left' rfl
    have htext : (FdTarget.socket inode).text.toList = "socket:[".toList ++ (Text.ofInt inode.toNat ++ [']']) :=
      String.toList_ofList
    rw [htext, socketInode, if_pos (hstarts _), hdrop]
    dsimp only
    rw [List.getLast?_concat, if_pos rfl, List.dropLast_concat, Text.parseU64_ofInt, FdTarget.inode]
  | other target => exact if_neg target.2

variable {fds : List (Int32 × FdTarget)} (links : ∀ fd ∈ fds, fs (.readLink (join dir (toString fd.1))) = .ok fd.2.text)
include links

/-- Every descriptor whose link can be read is listed. -/
theorem readFds_eq : (readFds dir (fds.map Prod.fst)).resultOn fs = .ok (fds.map fun fd => fd.2.file fs dir fd.1) := by
  induction fds with
  | nil => rfl
  | cons fd fds ih =>
    obtain ⟨hfd, hfds⟩ := List.forall_mem_cons.mp links
    obtain ⟨kind, hkind⟩ := classify_ok fs (join dir (toString fd.1)) fd.2.text
    simp [readFds, hfd, hkind, ih hfds, FdTarget.file, Except.toOption]

theorem readInodes_eq : (readInodes dir (fds.map Prod.fst)).resultOn fs =
    .ok (fds.filterMap fun fd => fd.2.inode).toFinset := by
  induction fds with
  | nil => rfl
  | cons fd fds ih =>
    obtain ⟨hfd, hfds⟩ := List.forall_mem_cons.mp links
    have hrest := ih hfds
    cases hinode : fd.2.inode with
    | none => simp [readInodes, hfd, hrest, socketInode_text, hinode]
    | some inode => simp [readInodes, hfd, hrest, socketInode_text, hinode]

end Descriptors

theorem splitWhitespace_controllersText {names : List Text} (h : ∀ name ∈ names, Text.IsWord name) :
    Text.splitWhitespace (V2Cgroup.controllersText names) = names := by
  cases names with
  | nil => rfl
  | cons name names =>
    obtain ⟨hname, hnames⟩ := List.forall_mem_cons.mp h
    rw [V2Cgroup.controllersText, Text.splitWhitespace_concat (by decide),
      Text.splitWhitespace_words names hnames name hname.1 hname.2]

theorem FileSystem.withFile_self (fs : FileSystem) (path : String) : fs.withFile path (fs (.readFile path)) = fs := by
  funext a
  cases a with
  | readFile p =>
    by_cases hp : p = path
    · subst hp
      exact if_pos rfl
    · exact if_neg hp
  | readLink p => rfl
  | readDir p => rfl
  | metadata p => rfl

namespace KernelProcess.Shown
variable {adapter : LinuxAdapter} {fs : FileSystem} {p : KernelProcess} (h : p.Shown adapter fs)
include h

theorem readStat_eq : (readStat adapter.root p.pid).resultOn fs = .ok p.stat.stat := by
  have hnewline : ∀ c ∈ ['\n'], Text.isWhitespace c = true := List.forall_mem_singleton.mpr rfl
  have hparse := p.stat.parse (procPath adapter.root p.pid "stat") hnewline
  simp [readStat, h.stat, Except.mapError, hparse]

theorem readIds_eq : (readIds adapter.root p.pid).resultOn fs = .ok (p.status.uid, p.status.gid) := by
  simp [readIds, h.status, Except.mapError, p.status.firstStatusValue_uid, p.status.firstStatusValue_gid]

theorem readCmdline_eq : (readCmdline adapter.root p.pid).resultOn fs = .ok (p.args.filter (· ≠ "")) := by
  have hread := resultOn_readCmdline fs adapter.root p.pid p.argsText
  rwa [← h.cmdline, FileSystem.withFile_self] at hread

theorem readExe_eq : (readExe adapter.root p.pid).resultOn fs = .ok p.exe.toOption := by
  simp [readExe, h.exe]

theorem readMemoryBreakdown_eq :
    (readMemoryBreakdown adapter.root p.pid adapter.pageSize).resultOn fs = .ok (p.memory adapter.pageSize) := by
  have hstatm : (readStatm adapter.root p.pid adapter.pageSize).resultOn fs =
      .ok (p.size * adapter.pageSize, p.resident * adapter.pageSize) := by
    simp [readStatm, h.statm, Except.mapError, parseStatm_text]
  have hvmswap : (readVmswap adapter.root p.pid).resultOn fs = .ok (p.status.swap.getD 0 * 1024) := by
    simp [readVmswap, h.status, Except.mapError, p.status.kbFieldBytes_swap]
  have hrollup := h.rollup
  rw [readMemoryBreakdown, Procfs.resultOn_bind, hstatm, ok_bind, readSmapsRollup, memory]
  cases hfile : p.rollup with
  | none =>
    rw [hfile] at hrollup
    simp [resultOn_readToStringOptional_missing fs _ hrollup, hvmswap]
  | some file =>
    rw [hfile] at hrollup
    have hread := (resultOn_readToStringOptional_ok_iff fs _ (some file.text)).mpr (.inr ⟨file.text, hrollup, rfl⟩)
    simp [hread, file.parseSmapsRollup_text, RollupFile.rollup]

theorem readV2Controllers_eq {group : V2Cgroup} (hgroup : group ∈ p.cgroup) :
    (readV2Controllers adapter.sysRoot group.path).resultOn fs =
      .ok ((group.controllers.getD []).map String.ofList) := by
  have hcontrollers := h.controllers group hgroup
  rw [V2Cgroup.controllersPath] at hcontrollers
  simp only [readV2Controllers, Procfs.resultOn_bind, resultOn_fsReadToString, ok_bind, Procfs.resultOn_pure]
  cases htext : fs.text (join (join adapter.sysRoot (String.ofList (Text.trimStartMatches ['/'] group.path)))
    "cgroup.controllers") with
  | error source =>
    rw [htext] at hcontrollers
    have hnone : group.controllers = none := Option.map_eq_none_iff.mp hcontrollers.symm
    rw [hnone]
    rfl
  | ok content =>
    rw [htext] at hcontrollers
    obtain ⟨names, hsome, rfl⟩ := Option.map_eq_some_iff.mp hcontrollers.symm
    dsimp only
    rw [hsome, Option.getD_some, splitWhitespace_controllersText (group.words names hsome)]

theorem readCgroup_eq :
    (readCgroup adapter.root adapter.sysRoot p.pid).resultOn fs = .ok (p.cgroup.map V2Cgroup.info) := by
  have hcgroup := h.cgroup
  rw [readCgroup, Procfs.resultOn_bind]
  cases hgroup : p.cgroup with
  | none =>
    rw [hgroup] at hcgroup
    rw [resultOn_readToStringOptional_missing fs _ hcgroup]
    rfl
  | some group =>
    rw [hgroup] at hcgroup
    have hread := (resultOn_readToStringOptional_ok_iff fs _ (some (cgroupText group.path))).mpr
      (.inr ⟨_, hcgroup, rfl⟩)
    have hlines := parseCgroupLines_text group.oneLine group.lastChar
    rw [hread, ok_bind]
    simp [hlines, h.readV2Controllers_eq hgroup, V2Cgroup.info]

theorem listFds_eq :
    (listNumericEntries (procPath adapter.root p.pid "fd")).resultOn fs = .ok (p.fds.map Prod.fst) :=
  listNumericEntries_ids fs h.fd

theorem listOpenFiles_eq : (listOpenFiles adapter.root p.pid).resultOn fs = .ok (p.openFiles adapter.root fs) := by
  simp [listOpenFiles, h.listFds_eq, readFds_eq fs h.links, openFiles]

theorem process_eq : (adapter.process p.pid).resultOn fs =
    .ok { p.snapshot adapter.pageSize with cmdline := p.args.filter (· ≠ "") } := by
  simp only [LinuxAdapter.process, Procfs.resultOn_bind, h.readStat_eq, h.readIds_eq, Procfs.resultOn_attempt,
    h.readCmdline_eq, h.readExe_eq, h.readMemoryBreakdown_eq, h.readCgroup_eq, h.listOpenFiles_eq, ok_bind,
    Procfs.resultOn_pure]
  simp [snapshot, Except.toOption, openFiles, pid]

theorem socketInodes_eq : (socketInodes adapter.root p.pid).resultOn fs = .ok p.inodes.toFinset := by
  simp [socketInodes, h.listFds_eq, readInodes_eq fs h.links, inodes]

/-- Table by table: a missing one has no rows. -/
theorem readTables_eq {files : List (String × Protocol)} (hfiles : ∀ file ∈ files, file ∈ netFiles) :
    (readTables p.inodes.toFinset (procPath adapter.root p.pid "net") files).Returns fs
      ((files.flatMap fun file => ((p.inet file.2).getD []).map (·.connection file.2)).filter
        (·.inode ∈ p.inodes)) := by
  induction files with
  | nil => rfl
  | cons file files ih =>
    obtain ⟨hfile, hfiles⟩ := List.forall_mem_cons.mp hfiles
    obtain ⟨header, hheader, htext⟩ := h.inet file hfile
    have hrest := ih hfiles
    rw [readTables, panics_returns_bind]
    cases hsockets : p.inet file.2 with
    | none =>
      rw [hsockets] at htext
      refine ⟨none, ?_, ?_⟩
      · exact (panics_returns_lift _ _ _).mpr (resultOn_readToStringOptional_missing fs _ htext)
      · simpa [hsockets] using hrest
    | some sockets =>
      rw [hsockets] at htext
      refine ⟨some (inetTable header sockets), ?_, ?_⟩
      · rw [panics_returns_lift, resultOn_readToStringOptional_ok_iff]
        exact .inr ⟨_, htext, rfl⟩
      · dsimp only
        rw [panics_returns_bind]
        refine ⟨_, (panics_returns_checked _ _ _).mpr (parseTcpUdp_inetTable hheader sockets file.2 _), ?_⟩
        rw [panics_returns_bind]
        refine ⟨_, hrest, ?_⟩
        simp [hsockets]

theorem connections_eq : (adapter.connections p.pid).Returns fs (p.connectionsBy UnixSocket.firstWord) := by
  have hunix := h.unix
  rw [LinuxAdapter.connections, readConnections, panics_returns_bind]
  refine ⟨_, (panics_returns_lift _ _ _).mpr h.socketInodes_eq, ?_⟩
  rw [panics_returns_bind]
  refine ⟨_, h.readTables_eq fun _ => id, ?_⟩
  rw [panics_returns_bind]
  cases hsockets : p.unix with
  | none =>
    rw [hsockets] at hunix
    refine ⟨none, ?_, ?_⟩
    · exact (panics_returns_lift _ _ _).mpr (resultOn_readToStringOptional_missing fs _ hunix)
    · simp [connectionsBy, hsockets]
  | some sockets =>
    rw [hsockets] at hunix
    refine ⟨some (unixTable sockets), ?_, ?_⟩
    · rw [panics_returns_lift, resultOn_readToStringOptional_ok_iff]
      exact .inr ⟨_, hunix, rfl⟩
    · have hparse : parseUnix (unixTable sockets) = sockets.map UnixSocket.firstWord := parseUnix_unixTable sockets
      simp [connectionsBy, hsockets, hparse]

/-- The snapshot is read whole just when no argument is empty. -/
theorem process_iff : (adapter.process p.pid).resultOn fs = .ok (p.snapshot adapter.pageSize) ↔ p.FullArgs := by
  rw [h.process_eq, Except.ok.injEq]
  simp [snapshot, FullArgs]

/-- The connections are read whole just when no name of a Unix socket has white space in it. -/
theorem connections_iff : (adapter.connections p.pid).Returns fs p.connections ↔ p.PlainNames := by
  have heq : (adapter.connections p.pid).Returns fs p.connections ↔
      p.connectionsBy UnixSocket.firstWord = p.connections :=
    ⟨fun hreturns => Option.some.inj (Except.ok.inj (h.connections_eq.symm.trans hreturns)),
      fun heq => heq ▸ h.connections_eq⟩
  have hheld (unix : UnixSocket → NetworkConnection) (hunix : ∀ socket, (unix socket).inode = socket.inode) :
      ((p.unix.getD []).map unix).filter (·.inode ∈ p.inodes) =
        ((p.unix.getD []).filter (·.inode ∈ p.inodes)).map unix := by
    rw [List.filter_map]
    exact congrArg (List.map unix) (List.filter_congr fun socket _ => by simp [hunix])
  rw [heq, connections, connectionsBy, connectionsBy, hheld _ fun _ => rfl, hheld _ fun _ => rfl,
    List.append_cancel_left_eq, List.map_inj_left, PlainNames]
  simp only [List.mem_filter, decide_eq_true_iff, and_imp, UnixSocket.firstWord_eq_iff]

end KernelProcess.Shown

/-- What /proc shows of a process is read back, its snapshot, its connections and its open files, whatever else it is
named, holds open or talks to, but for empty arguments and for white space in the names of Unix sockets. -/
theorem shown_process_read_back {adapter : LinuxAdapter} {fs : FileSystem} {p : KernelProcess}
    (h : p.Shown adapter fs) :
    ((adapter.process p.pid).resultOn fs = .ok (p.snapshot adapter.pageSize) ↔ p.FullArgs) ∧
      ((adapter.connections p.pid).Returns fs p.connections ↔ p.PlainNames) ∧
      (adapter.openFiles p.pid).resultOn fs = .ok (p.openFiles adapter.root fs) :=
  ⟨h.process_iff, h.connections_iff, h.listOpenFiles_eq⟩

/-- A file that holds a text. -/
def textFile (t : Text) : Except ErrorKind ByteArray := .ok (Text.utf8 t).toByteArray

theorem decoded_textFile (t : Text) : decoded (textFile t) = .ok t := by
  rw [textFile, decoded, Text.fromUtf8_utf8]

def sshdRollup : RollupFile where
  range := ⟨"55f1a2b3c000-55f1a2b5e000 ---p 00000000 00".toList, "00 0                  [rollup]".toList⟩
  sizes := [("Rss", 4800), ("Pss", 2100), ("Shared_Clean", 2600), ("Private_Dirty", 2200), ("Anonymous", 1900)]
  plain := by decide
  keys := by
    simp only [List.forall_mem_cons]
    exact ⟨by decide, by decide, by decide, by decide, by decide, List.forall_mem_nil _⟩
  unread := by decide

/-- A socket on port 22, and one of another process. -/
def sshdSockets : List InetSocket :=
  [{ slot := 0, localAddress := .v4 0 0 0 0, localPort := 22, remAddress := .v4 0 0 0 0, remPort := 0, state := 10
     txQueue := 0, rxQueue := 0, timer := 0, expires := 0, retransmits := 0, uid := 0, timeout := 0, inode := 999
     further := [['1']], words := List.forall_mem_singleton.mpr (by decide) },
    { slot := 1, localAddress := .v4 127 0 0 1, localPort := 8080, remAddress := .v4 10 0 0 10, remPort := 443
      state := 1, txQueue := 0, rxQueue := 0, timer := 0, expires := 0, retransmits := 0, uid := 1000, timeout := 0
      inode := 1000, further := [['1']], words := List.forall_mem_singleton.mpr (by decide) }]

def sshdNetHeader : Text :=
  "  sl  local_address rem_address   st tx_queue rx_queue tr tm->when retrnsmt   uid  timeout inode".toList

/-- An ssh daemon: it listens on port 22. -/
def sshd : KernelProcess where
  stat := {
    stat := { id := 42, comm := "sshd", stateChar := 'S', ppid := 1, pgrp := 42, session := 42, utime := 7, stime := 3
              priority := 20, nice := 0, numThreads := 1, starttime := 98765 }
    unread := ⟨0, -1, 4194560, 12, 0, 1, 0, 5, 6, 0, [1024, 17]⟩
    stateChar_visible := by decide
    stateChar_ne := by decide
    utime_lt := by decide
    stime_lt := by decide
    starttime_lt := by decide }
  status := {
    rows := [⟨"Name".toList, "\tsshd".toList⟩, idRow "Uid" [0, 0, 0, 0], idRow "Gid" [0, 0, 0, 0],
      kbRow "VmSwap" ['\t'] 12]
    uid := 0
    gid := 0
    swap := some 12
    plain := by
      simp only [List.forall_mem_cons]
      exact ⟨by decide, by decide, by decide, by decide, List.forall_mem_nil _⟩
    uidRow := ⟨[0, 0, 0], by decide⟩
    gidRow := ⟨[0, 0, 0], by decide⟩
    swapRow := by decide }
  args := ["sshd", "-D"]
  exe := .ok "/usr/sbin/sshd"
  size := 3000
  resident := 1200
  furtherSizes := [800, 100, 0, 300, 0]
  rollup := some sshdRollup
  cgroup := some {
    path := "/system.slice/ssh.service".toList
    controllers := some ["cpu".toList, "memory".toList]
    oneLine := by decide
    lastChar := by decide
    words := by
      rintro _ ⟨⟩
      exact List.forall_mem_cons.mpr ⟨by decide, List.forall_mem_singleton.mpr (by decide)⟩ }
  fds := [(0, .other ⟨"/dev/null", by decide⟩), (3, .socket 999)]
  inet
    | .tcp => some sshdSockets
    | _ => none
  unix := none
  argsText := by decide

/-- The files of the daemon, with what else stands in /proc. -/
def sshdFiles : FileSystem
  | .readFile path => match path with
    | "/proc/42/stat" => .ok "42 (sshd) S 1 42 42 0 -1 4194560 12 0 1 0 7 3 5 6 20 0 1 0 98765 1024 17\n".toUTF8
    | "/proc/42/status" => .ok "Name:\tsshd\nUid:\t0\t0\t0\t0\nGid:\t0\t0\t0\t0\nVmSwap:\t      12 kB\n".toUTF8
    | "/proc/42/cmdline" => .ok "sshd\x00-D\x00".toUTF8
    | "/proc/42/statm" => .ok "3000 1200 800 100 0 300 0\n".toUTF8
    | "/proc/42/smaps_rollup" => textFile sshdRollup.text
    | "/proc/42/cgroup" => .ok "0::/system.slice/ssh.service\n".toUTF8
    | "/sys/fs/cgroup/system.slice/ssh.service/cgroup.controllers" => .ok "cpu memory\n".toUTF8
    | "/proc/42/net/tcp" => textFile (inetTable sshdNetHeader sshdSockets)
    | _ => .error .notFound
  | .readLink path => match path with
    | "/proc/42/exe" => .ok "/usr/sbin/sshd"
    | "/proc/42/fd/0" => .ok "/dev/null"
    | "/proc/42/fd/3" => .ok "socket:[999]"
    | _ => .error .notFound
  | .readDir path => match path with
    | "/proc" => .ok [.ok (some "self".toList), .ok (some "42".toList), .ok (some "meminfo".toList)]
    | "/proc/42/fd" => .ok [.ok (some "0".toList), .ok (some "3".toList)]
    | _ => .error .notFound
  | .metadata _ => .ok .charDevice

theorem sshd_shown : sshd.Shown hostAdapter sshdFiles where
  stat := by decide +kernel
  status := by decide +kernel
  cmdline := by decide +kernel
  exe := by decide +kernel
  statm := by decide +kernel
  rollup := by
    have hpath : procPath "/proc" 42 "smaps_rollup" = "/proc/42/smaps_rollup" := by decide +kernel
    have hfile : sshdFiles (.readFile "/proc/42/smaps_rollup") = textFile sshdRollup.text := rfl
    change decoded (sshdFiles (.readFile (procPath "/proc" 42 "smaps_rollup"))) = .ok sshdRollup.text
    rw [hpath, hfile, decoded_textFile]
  cgroup := by decide +kernel
  controllers := by
    rintro _ ⟨⟩
    decide +kernel
  fd := by decide +kernel
  links := by
    refine List.forall_mem_cons.mpr ⟨by decide +kernel, List.forall_mem_singleton.mpr ?_⟩
    decide +kernel
  inet := by
    simp only [netFiles, List.forall_mem_cons]
    have hpath : join (procPath "/proc" 42 "net") "tcp" = "/proc/42/net/tcp" := by decide +kernel
    have hfile : sshdFiles (.readFile "/proc/42/net/tcp") = textFile (inetTable sshdNetHeader sshdSockets) := rfl
    have htcp : sshdFiles.text (join (procPath "/proc" 42 "net") "tcp") =
        .ok (inetTable sshdNetHeader sshdSockets) := by
      rw [FileSystem.text, hpath, hfile, decoded_textFile]
    refine ⟨⟨sshdNetHeader, by decide, htcp⟩, ⟨[], by decide, by decide +kernel⟩, ⟨[], by decide, by decide +kernel⟩,
      ⟨[], by decide, by decide +kernel⟩, List.forall_mem_nil _⟩
  unix := by decide +kernel

theorem sshd_fullArgs : sshd.FullArgs := by
  rw [KernelProcess.FullArgs]
  decide

theorem sshd_plainNames : sshd.PlainNames := nofun

theorem sshd_read_back : (hostAdapter.process 42).resultOn sshdFiles = .ok (sshd.snapshot 4096) ∧
    (hostAdapter.connections 42).Returns sshdFiles [⟨.tcp, "0.0.0.0:22", "0.0.0.0:0", .listen, 999⟩] ∧
    (hostAdapter.openFiles 42).resultOn sshdFiles = .ok (sshd.openFiles "/proc" sshdFiles) := by
  have hconnections : sshd.connections = [⟨.tcp, "0.0.0.0:22", "0.0.0.0:0", .listen, 999⟩] := by decide +kernel
  obtain ⟨hprocess, hreturns, hfiles⟩ := shown_process_read_back sshd_shown
  rw [hconnections] at hreturns
  exact ⟨hprocess.mpr sshd_fullArgs, hreturns.mpr sshd_plainNames, hfiles⟩

end ProcessExplorer.Telemetry.Linux
