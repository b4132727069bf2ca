import ProcessExplorer.Telemetry.Linux.KernelProcess
import ProcessExplorer.Telemetry.Linux.Procfs.Accounting

/-! What else the kernel keeps of a process, its counters, limits, environment, namespaces and threads, and what the
adapter reads back of it. -/
namespace ProcessExplorer.Telemetry.Linux
open Library Model

namespace LinuxAdapter
variable (adapter : LinuxAdapter) (pid : Pid)

def diskIo : Procfs DiskIoStats := readIo adapter.root pid

def schedulerStats : Procfs Schedstat := readSchedstat adapter.root pid

def fdLimits : Procfs FdLimits := readFdLimits adapter.root pid

def environment : Procfs (List EnvVar) := readEnviron adapter.root pid

def namespaces : ProcfsPanics NamespaceInfo := readNamespaces adapter.root pid

end LinuxAdapter

/-- The process is the one whose namespaces these are; a key has no equals sign, and nothing of a variable is NUL.
The variables and the names of the threads are those of a process that keeps to UTF-8. -/
structure KernelDetails where
  io : IoFile
  schedstat : Schedstat
  limits : String → FdLimits
  environment : List EnvVar
  namespaces : NamespaceInfo
  threads : List StatFile
  keys : ∀ var ∈ environment, '=' ∉ var.key.toList
  entries : ∀ var ∈ environment, '\x00' ∉ var.entry

namespace KernelDetails
variable (d : KernelDetails)

def pid : Pid := d.namespaces.pid

/-- The namespaces that every kernel has. -/
def links : List (String × UInt64) :=
  [("mnt", d.namespaces.mnt), ("net", d.namespaces.net), ("user", d.namespaces.user), ("uts", d.namespaces.uts),
    ("ipc", d.namespaces.ipc)]

/-- A thread as a snapshot, on the processors that the mask allows it. -/
def threadSnapshot (schedGetaffinity : Pid → Except ErrorKind CpuSet) (stat : StatFields) : ThreadSnapshot where
  tid := stat.id
  name := stat.comm
  state := .fromProcChar stat.stateChar
  cpu := ⟨stat.utime, stat.stime, 0, 0, 0⟩
  priority := stat.priority
  nice := stat.nice
  affinity := (schedGetaffinity stat.id).toOption.elim [] fun set =>
    ((List.finRange 1024).filter set).map fun cpu => UInt32.ofNat cpu

/-- What any user may read of a process: how long it has run and waited, and its threads. -/
structure CpuShown (adapter : LinuxAdapter) (fs : FileSystem) (d : KernelDetails) : Prop where
  schedstat : fs.text (procPath adapter.root d.pid "schedstat") = .ok (schedstatText d.schedstat)
  task : fs (.readDir (procPath adapter.root d.pid "task")) =
    .ok (d.threads.map fun thread => .ok (some (Text.ofInt thread.stat.id.toInt)))
  threads : ∀ thread ∈ d.threads, fs.text (threadPath adapter.root d.pid thread.stat.id) =
    .ok (statLine thread.stat thread.unread ++ ['\n'])

/-- And what its owner may read as well. -/
structure Shown (adapter : LinuxAdapter) (fs : FileSystem) (d : KernelDetails) : Prop
    extends CpuShown adapter fs d where
  io : fs.text (procPath adapter.root d.pid "io") = .ok d.io.text
  limits : fs.text (procPath adapter.root d.pid "limits") = .ok (limitsText d.limits)
  environ : fs.text (procPath adapter.root d.pid "environ") = .ok (environText (d.environment.map EnvVar.entry))
  namespaces : ∀ link ∈ d.links,
    fs (.readLink (join (procPath adapter.root d.pid "ns") link.1)) = .ok (nsText link.1 link.2)
  cgroupNamespace : fs (.readLink (join (procPath adapter.root d.pid "ns") "cgroup")) =
    d.namespaces.cgroup.elim (.error .notFound) fun inode => .ok (nsText "cgroup" inode)

end KernelDetails

namespace KernelDetails.CpuShown
variable {adapter : LinuxAdapter} {fs : FileSystem} {d : KernelDetails} (h : d.CpuShown adapter fs)
include h

theorem schedulerStats_eq : (adapter.schedulerStats d.pid).resultOn fs = .ok d.schedstat := by
  simp [LinuxAdapter.schedulerStats, readSchedstat, h.schedstat, Except.mapError, parseSchedstat_text]

theorem listTids_eq : (listTids adapter.root d.pid).resultOn fs = .ok (d.threads.map (·.stat.id)) :=
  listNumericEntries_ids fs h.task

variable (schedGetaffinity : Pid → Except ErrorKind CpuSet)

theorem readThread_eq {thread : StatFile} (hthread : thread ∈ d.threads) :
    (readThread schedGetaffinity adapter.root d.pid thread.stat.id).resultOn fs =
      .ok (threadSnapshot schedGetaffinity thread.stat) := by
  have hnewline : ∀ c ∈ ['\n'], Text.isWhitespace c = true := List.forall_mem_singleton.mpr rfl
  have hparse := thread.parse (threadPath adapter.root d.pid thread.stat.id) hnewline
  have haffinity : (readAffinity schedGetaffinity thread.stat.id).toOption.getD [] =
      (threadSnapshot schedGetaffinity thread.stat).affinity := by
    rw [readAffinity, threadSnapshot]
    dsimp only
    cases schedGetaffinity thread.stat.id with
    | error source => simp [Except.toOption]
    | ok set => simp [Except.toOption]
  simp [readThread, h.threads thread hthread, Except.mapError, hparse, haffinity, threadSnapshot]

theorem threads_eq : (adapter.threads schedGetaffinity d.pid).resultOn fs =
    .ok (d.threads.map fun thread => threadSnapshot schedGetaffinity thread.stat) := by
  have hall : ∀ tid ∈ d.threads.map (·.stat.id), ∃ thread,
      (readThread schedGetaffinity adapter.root d.pid tid).resultOn fs = .ok thread :=
    List.forall_mem_map.mpr fun thread hthread => ⟨_, h.readThread_eq schedGetaffinity hthread⟩
  have hsnapshots : snapshots schedGetaffinity adapter.root d.pid fs (d.threads.map (·.stat.id)) =
      d.threads.map fun thread => threadSnapshot schedGetaffinity thread.stat := by
    rw [snapshots, List.filterMap_map, ← List.filterMap_eq_map]
    refine List.filterMap_congr fun thread hthread => ?_
    rw [Function.comp_apply, h.readThread_eq schedGetaffinity hthread]
    rfl
  rw [LinuxAdapter.threads, Procfs.resultOn_bind, h.listTids_eq, ok_bind, (readThreads_eq_ok_iff _).mpr hall,
    hsnapshots]

end KernelDetails.CpuShown

namespace KernelDetails.Shown
variable {adapter : LinuxAdapter} {fs : FileSystem} {d : KernelDetails} (h : d.Shown adapter fs)
include h

theorem diskIo_eq : (adapter.diskIo d.pid).resultOn fs = .ok ⟨d.io.readBytes, d.io.writeBytes⟩ := by
  have hread (path : String) : ioField d.io.text "read_bytes:" path = .ok d.io.readBytes :=
    ioField_document d.io.plain_rows rfl (by decide : ':' ∉ "read_bytes".toList) path rfl
  have hwrite (path : String) : ioField d.io.text "write_bytes:" path = .ok d.io.writeBytes :=
    ioField_document d.io.plain_rows rfl (by decide : ':' ∉ "write_bytes".toList) path rfl
  simp [LinuxAdapter.diskIo, readIo, h.io, Except.mapError, hread, hwrite]

theorem fdLimits_eq : (adapter.fdLimits d.pid).resultOn fs = .ok (d.limits "Max open files") := by
  simp [LinuxAdapter.fdLimits, readFdLimits, h.limits, Except.mapError, parseFdLimits_text]

theorem environment_eq : (adapter.environment d.pid).resultOn fs = .ok d.environment := by
  have hentries : ((environText (d.environment.map EnvVar.entry)).splitOn '\x00').filter (· ≠ []) =
      d.environment.map EnvVar.entry := by
    rw [entries_environText (List.forall_mem_map.mpr d.entries), List.filter_eq_self]
    exact List.forall_mem_map.mpr fun var _ => decide_eq_true var.entry_ne_nil
  have hvars : (d.environment.map EnvVar.entry).map envVar = d.environment := by
    rw [List.map_map]
    exact (List.map_congr_left fun var hvar => (envVar_entry_iff var).mpr (d.keys var hvar)).trans (List.map_id' _)
  rw [LinuxAdapter.environment, readEnviron, Procfs.resultOn_bind]
  simp only [resultOn_readToString, h.environ, Except.mapError, ok_bind, Procfs.resultOn_pure]
  rw [hentries, hvars]

theorem readNsInode_eq {kind : String} {inode : UInt64} (hlink : (kind, inode) ∈ d.links) :
    (readNsInode adapter.root d.pid kind).Returns fs inode := by
  have hplain : ∀ link ∈ d.links, '[' ∉ link.1.toList ∧ ']' ∉ link.1.toList := by
    simp only [links, List.forall_mem_cons]
    exact ⟨by decide, by decide, by decide, by decide, by decide, List.forall_mem_nil _⟩
  obtain ⟨hopening, hclosing⟩ := hplain _ hlink
  exact returns_readNsInode fs hopening hclosing (h.namespaces _ hlink)

/-- A link that is not there is a kernel without these namespaces. -/
theorem readCgroupNamespace_eq : ∃ cgroup, (readNsInode adapter.root d.pid "cgroup").attempt.Returns fs cgroup ∧
    cgroup.toOption = d.namespaces.cgroup := by
  have hlink := h.cgroupNamespace
  cases hcgroup : d.namespaces.cgroup with
  | none =>
    rw [hcgroup] at hlink
    exact ⟨_, returns_attempt_error fs (readNsInode_missing fs hlink), rfl⟩
  | some inode =>
    rw [hcgroup] at hlink
    exact ⟨_, returns_attempt_ok fs (returns_readNsInode fs (by decide) (by decide) hlink), rfl⟩

theorem namespaces_eq : (adapter.namespaces d.pid).Returns fs d.namespaces := by
  obtain ⟨cgroup, hreturns, hcgroup⟩ := h.readCgroupNamespace_eq
  simp only [LinuxAdapter.namespaces, readNamespaces, panics_returns_bind]
  refine ⟨d.namespaces.mnt, h.readNsInode_eq (by simp [links]), d.namespaces.net, h.readNsInode_eq (by simp [links]),
    d.namespaces.user, h.readNsInode_eq (by simp [links]), d.namespaces.uts, h.readNsInode_eq (by simp [links]),
    d.namespaces.ipc, h.readNsInode_eq (by simp [links]), cgroup, hreturns, ?_⟩
  rw [hcgroup]
  rfl

end KernelDetails.Shown

/-- What the kernel shows of a process beside its snapshot is read back, the limit of open files out of all limits and
the namespace of the cgroups only where there is one. -/
theorem shown_details_read_back {adapter : LinuxAdapter} {fs : FileSystem} {d : KernelDetails}
    (h : d.Shown adapter fs) (schedGetaffinity : Pid → Except ErrorKind CpuSet) :
    (adapter.diskIo d.pid).resultOn fs = .ok ⟨d.io.readBytes, d.io.writeBytes⟩ ∧
      (adapter.schedulerStats d.pid).resultOn fs = .ok d.schedstat ∧
      (adapter.fdLimits d.pid).resultOn fs = .ok (d.limits "Max open files") ∧
      (adapter.environment d.pid).resultOn fs = .ok d.environment ∧
      (adapter.namespaces d.pid).Returns fs d.namespaces ∧
      (adapter.threads schedGetaffinity d.pid).resultOn fs =
        .ok (d.threads.map fun thread => KernelDetails.threadSnapshot schedGetaffinity thread.stat) :=
  ⟨h.diskIo_eq, h.schedulerStats_eq, h.fdLimits_eq, h.environment_eq, h.namespaces_eq, h.threads_eq schedGetaffinity⟩

def sherdThread (id : Pid) (comm : String) (starttime : UInt64) (hlt : starttime.toNat < 2 ^ 63) : StatFile where
  stat := { id, comm, stateChar := 'S', ppid := 1, pgrp := 100, session := 100, utime := 500, stime := 250
            priority := 20, nice := 0, numThreads := 2, starttime }
  unread := ⟨0, -1, 4194560, 0, 0, 0, 0, 0, 0, 0, [0, 0]⟩
  stateChar_visible := by dsimp only; decide
  stateChar_ne := by dsimp only; decide
  utime_lt := by dsimp only; decide
  stime_lt := by dsimp only; decide
  starttime_lt := hlt

/-- The monitor itself: a worker beside its main thread, and no namespace of cgroups. -/
def sherdDetails : KernelDetails where
  io := ⟨3000, 1200, 40, 12, 4096, 8192, 0⟩
  schedstat := { onCpuNs := 1500000, waitNs := 500000, timeslices := 42 }
  limits name := if name = "Max open files" then ⟨some 1024, some 524288⟩ else ⟨none, none⟩
  environment := [⟨"HOME", "/root"⟩, ⟨"RUST_LOG", "sherd=debug"⟩]
  namespaces := { pid := 100, mnt := 4026531841, net := 4026531840, user := 4026531837, uts := 4026531838,
                  ipc := 4026531839, cgroup := none }
  threads := [sherdThread 100 "sherd" 7 (by decide), sherdThread 102 "sherd:worker" 9 (by decide)]
  keys := by decide
  entries := by decide

def sherdDetailFiles : FileSystem
  | .readFile path => match path with
    | "/proc/100/io" => .ok ("rchar: 3000\nwchar: 1200\nsyscr: 40\nsyscw: 12\n" ++
      "read_bytes: 4096\nwrite_bytes: 8192\ncancelled_write_bytes: 0\n").toUTF8
    | "/proc/100/schedstat" => .ok "1500000 500000 42\n".toUTF8
    | "/proc/100/limits" => textFile (limitsText sherdDetails.limits)
    | "/proc/100/environ" => .ok "HOME=/root\x00RUST_LOG=sherd=debug\x00".toUTF8
    | "/proc/100/task/100/stat" =>
      .ok "100 (sherd) S 1 100 100 0 -1 4194560 0 0 0 0 500 250 0 0 20 0 2 0 7 0 0\n".toUTF8
    | "/proc/100/task/102/stat" =>
      .ok "102 (sherd:worker) S 1 100 100 0 -1 4194560 0 0 0 0 500 250 0 0 20 0 2 0 9 0 0\n".toUTF8
    | _ => .error .notFound
  | .readLink path => match path with
    | "/proc/100/ns/mnt" => .ok "mnt:[4026531841]"
    | "/proc/100/ns/net" => .ok "net:[4026531840]"
    | "/proc/100/ns/user" => .ok "user:[4026531837]"
    | "/proc/100/ns/uts" => .ok "uts:[4026531838]"
    | "/proc/100/ns/ipc" => .ok "ipc:[4026531839]"
    | _ => .error .notFound
  | .readDir path => if path = "/proc/100/task" then .ok [.ok (some "100".toList), .ok (some "102".toList)]
    else .error .notFound
  | .metadata _ => .error .notFound

theorem sherdDetails_shown : sherdDetails.Shown hostAdapter sherdDetailFiles where
  io := by decide +kernel
  schedstat := by decide +kernel
  limits := by
    have hpath : procPath "/proc" 100 "limits" = "/proc/100/limits" := by decide +kernel
    have hfile : sherdDetailFiles (.readFile "/proc/100/limits") = textFile (limitsText sherdDetails.limits) := rfl
    change decoded (sherdDetailFiles (.readFile (procPath "/proc" 100 "limits"))) = .ok (limitsText sherdDetails.limits)
    rw [hpath, hfile, decoded_textFile]
  environ := by decide +kernel
  namespaces := by
    simp only [KernelDetails.links, List.forall_mem_cons]
    exact ⟨by decide +kernel, by decide +kernel, by decide +kernel, by decide +kernel, by decide +kernel,
      List.forall_mem_nil _⟩
  cgroupNamespace := by decide +kernel
  task := by decide +kernel
  threads := List.forall_mem_cons.mpr ⟨by decide +kernel, List.forall_mem_singleton.mpr (by decide +kernel)⟩

theorem sherd_details_read_back : (hostAdapter.diskIo 100).resultOn sherdDetailFiles = .ok ⟨4096, 8192⟩ ∧
    (hostAdapter.fdLimits 100).resultOn sherdDetailFiles = .ok ⟨some 1024, some 524288⟩ ∧
    (hostAdapter.namespaces 100).Returns sherdDetailFiles sherdDetails.namespaces := by
  obtain ⟨hio, -, hlimits, -, hnamespaces, -⟩ :=
    shown_details_read_back sherdDetails_shown fun _ => .error .permissionDenied
  exact ⟨hio, hlimits, hnamespaces⟩

end ProcessExplorer.Telemetry.Linux
