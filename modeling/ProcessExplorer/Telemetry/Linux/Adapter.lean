import ProcessExplorer.Telemetry.Linux.Procfs.Cgroup
import ProcessExplorer.Telemetry.Linux.Procfs.Memory
import ProcessExplorer.Telemetry.Linux.Procfs.Net
import ProcessExplorer.Telemetry.Linux.Procfs.Process

/-! The reads of a refresh; the snapshot of one process, read from eight files, and when there is one. -/
namespace ProcessExplorer.Telemetry.Linux
open Library Model

structure LinuxAdapter where
  root : String
  sysRoot : String
  pageSize : UInt64

namespace LinuxAdapter

def listPids (adapter : LinuxAdapter) : Procfs (List Pid) := listNumericEntries adapter.root

def connections (adapter : LinuxAdapter) (pid : Pid) : ProcfsPanics (List NetworkConnection) :=
  readConnections adapter.root pid

def openFiles (adapter : LinuxAdapter) (pid : Pid) : Procfs (List OpenFile) := listOpenFiles adapter.root pid

def process (adapter : LinuxAdapter) (pid : Pid) : Procfs ProcessSnapshot := do
  let stat ← readStat adapter.root pid
  let (uid, gid) ← readIds adapter.root pid
  let cmdline ← Procfs.attempt (readCmdline adapter.root pid)
  let exe ← readExe adapter.root pid
  let memory ← readMemoryBreakdown adapter.root pid adapter.pageSize
  let cgroup ← readCgroup adapter.root adapter.sysRoot pid
  let openFiles ← Procfs.attempt (listOpenFiles adapter.root pid)
  pure {
    pid := stat.id
    ppid := stat.ppid
    pgid := stat.pgrp
    sid := stat.session
    name := stat.comm
    cmdline := cmdline.toOption.getD []
    exe := exe
    state := ProcessState.fromProcChar stat.stateChar
    uid := uid
    gid := gid
    startTime := stat.starttime
    cpu := ⟨stat.utime, stat.stime, 0, 0, 0⟩
    memory := memory
    threadCount := stat.numThreads
    openFileCount := (openFiles.toOption.map fun files => UInt32.ofNat files.length).getD 0
    cgroup := cgroup }

variable (adapter : LinuxAdapter) (pid : Pid) (fs : FileSystem)

/-- stat, status and statm of a process can be read and are well formed. -/
structure CoreReadable : Prop where
  stat : ∃ content stat, fs.text (procPath adapter.root pid "stat") = .ok content ∧
    parseStatLine content (procPath adapter.root pid "stat") = .ok stat
  status : ∃ content uid gid, fs.text (procPath adapter.root pid "status") = .ok content ∧
    firstStatusValue content "Uid:" (procPath adapter.root pid "status") = .ok uid ∧
    firstStatusValue content "Gid:" (procPath adapter.root pid "status") = .ok gid ∧
    KbLineReadable content "VmSwap:"
  statm : ∃ content sizes, fs.text (procPath adapter.root pid "statm") = .ok content ∧
    parseStatm content (procPath adapter.root pid "statm") adapter.pageSize = .ok sizes

/-- No I/O error but a missing file, and only UTF-8. -/
def CgroupReadable : Prop :=
  fs.text (procPath adapter.root pid "cgroup") = .error .notFound ∨
  ∃ content, fs.text (procPath adapter.root pid "cgroup") = .ok content

namespace CoreReadable
variable {adapter pid fs} (core : CoreReadable adapter pid fs)
include core

theorem readStat_ok : ∃ stat, (readStat adapter.root pid).resultOn fs = .ok stat := by
  obtain ⟨content, stat, htext, hstat⟩ := core.stat
  exact ⟨stat, by simp [readStat, htext, Except.mapError, hstat]⟩

theorem readIds_ok : ∃ ids, (readIds adapter.root pid).resultOn fs = .ok ids := by
  obtain ⟨content, uid, gid, htext, huid, hgid, -⟩ := core.status
  exact ⟨(uid, gid), by simp [readIds, htext, Except.mapError, huid, hgid]⟩

theorem readVmswap_ok : ∃ swap, (readVmswap adapter.root pid).resultOn fs = .ok swap := by
  obtain ⟨content, uid, gid, htext, -, -, hswap⟩ := core.status
  obtain ⟨swap, hswap⟩ := (kbFieldBytes_ok_iff content _ (procPath adapter.root pid "status")).mpr hswap
  exact ⟨swap, by simp [readVmswap, htext, Except.mapError, hswap]⟩

theorem readStatm_ok : ∃ sizes, (readStatm adapter.root pid adapter.pageSize).resultOn fs = .ok sizes := by
  obtain ⟨content, sizes, htext, hstatm⟩ := core.statm
  exact ⟨sizes, by simp [readStatm, htext, Except.mapError, hstatm]⟩

omit core in
/-- Whether the core files are readable is read off their texts. -/
theorem congr {fs' : FileSystem} (core : CoreReadable adapter pid fs)
    (h : ∀ name ∈ ["stat", "status", "statm"],
      fs'.text (procPath adapter.root pid name) = fs.text (procPath adapter.root pid name)) :
    CoreReadable adapter pid fs' := by
  obtain ⟨hstat, hstatus, hstatm⟩ := core
  exact ⟨by rwa [h "stat" (by simp)], by rwa [h "status" (by simp)], by rwa [h "statm" (by simp)]⟩

end CoreReadable

/-- A field whose own read failed has its empty value. -/
structure Degrades (snapshot : ProcessSnapshot) : Prop where
  cmdline : ∀ source, fs.text (procPath adapter.root pid "cmdline") = .error source → snapshot.cmdline = []
  exe : ∀ source, fs (.readLink (procPath adapter.root pid "exe")) = .error source → snapshot.exe = none
  openFiles : ∀ source, fs (.readDir (procPath adapter.root pid "fd")) = .error source →
    snapshot.openFileCount = 0
  memory : fs.text (procPath adapter.root pid "smaps_rollup") = .error .notFound →
    snapshot.memory.anonymous = 0 ∧ snapshot.memory.fileBacked = 0 ∧ snapshot.memory.shared = 0 ∧
    snapshot.memory.priv = 0
  cgroup : fs.text (procPath adapter.root pid "cgroup") = .error .notFound → snapshot.cgroup = none

theorem process_degrades (snapshot : ProcessSnapshot)
    (h : (adapter.process pid).resultOn fs = .ok snapshot) : Degrades adapter pid fs snapshot := by
  simp only [process, Procfs.resultOn_bind, Procfs.resultOn_attempt, bind_eq_ok_iff, Procfs.resultOn_pure,
    Except.ok.injEq] at h
  obtain ⟨stat, -, ids, -, _, rfl, exe, hexe, memory, hmemory, cgroup, hcgroup, _, rfl, rfl⟩ := h
  constructor
  · intro source hsource
    simp [readCmdline, hsource, Except.mapError, Except.toOption]
  · intro source hsource
    simpa [readExe, hsource, Except.toOption, eq_comm] using hexe
  · intro source hsource
    simp [listOpenFiles, listNumericEntries, hsource, Except.toOption]
  · intro hmissing
    exact readMemoryBreakdown_coarse fs adapter.root pid adapter.pageSize hmissing hmemory
  · intro hmissing
    rw [readCgroup, Procfs.resultOn_bind, resultOn_readToStringOptional_missing fs _ hmissing] at hcgroup
    exact (Except.ok.inj hcgroup).symm

theorem readExe_ok (root : String) : ∃ exe, (readExe root pid).resultOn fs = .ok exe := by
  simp [readExe]

/-- No read but those of smaps_rollup and cgroup can fail the snapshot of readable core files. -/
theorem exists_process_iff (core : CoreReadable adapter pid fs) :
    (∃ snapshot, (adapter.process pid).resultOn fs = .ok snapshot) ↔
      RollupReadable fs adapter.root pid ∧ CgroupReadable adapter pid fs := by
  obtain ⟨stat, hstat⟩ := core.readStat_ok
  obtain ⟨ids, hids⟩ := core.readIds_ok
  obtain ⟨swap, hswap⟩ := core.readVmswap_ok
  obtain ⟨sizes, hsizes⟩ := core.readStatm_ok
  obtain ⟨exe, hexe⟩ := readExe_ok pid fs adapter.root
  have hmemory := readMemoryBreakdown_ok_iff fs adapter.root pid adapter.pageSize hsizes hswap
  have hcgroup := readCgroup_ok_iff fs adapter.root adapter.sysRoot pid
  simp only [process, Procfs.resultOn_bind, hstat, hids, Procfs.resultOn_attempt, hexe, ok_bind,
    exists_bind_eq_ok, Procfs.resultOn_pure]
  rw [← hmemory, CgroupReadable, ← hcgroup]
  simp

/-- With the core files readable, the snapshot is there, degraded where a read failed, exactly when
smaps_rollup and cgroup are harmless: no other read can fail it. -/
theorem process_ok_iff (core : CoreReadable adapter pid fs) :
    (∃ snapshot, (adapter.process pid).resultOn fs = .ok snapshot ∧ Degrades adapter pid fs snapshot) ↔
      RollupReadable fs adapter.root pid ∧ CgroupReadable adapter pid fs := by
  have hdegrades (snapshot : ProcessSnapshot) :=
    and_iff_left_of_imp (process_degrades adapter pid fs snapshot)
  simp only [hdegrades]
  exact exists_process_iff adapter pid fs core

omit fs in
/-- A snapshot takes its start time from the first access, the read of stat. -/
theorem process_startTime {t : Interaction.Transcript Access Access.Answer} {snapshot : ProcessSnapshot}
    (h : (adapter.process pid).run.Reaches t (.pure (.ok snapshot))) :
    ∃ a content stat t', t = ⟨.readFile (procPath adapter.root pid "stat"), a⟩ :: t' ∧
      decoded a = .ok content ∧
      parseStatLine content (procPath adapter.root pid "stat") = .ok stat ∧
      snapshot.startTime = stat.starttime := by
  obtain ⟨t₁, t₂, stat, rfl, hstat, hids⟩ := h.of_bind_ok
  obtain ⟨t₃, t₄, content, rfl, hread, hlift⟩ := hstat.of_bind_ok
  obtain ⟨a, rfl, hdecoded⟩ := reaches_readToString _ hread
  obtain ⟨rfl, hparse⟩ := hlift.of_pure
  refine ⟨a, content, stat, t₂, by simp, hdecoded, by simpa [eq_comm] using hparse, ?_⟩
  obtain ⟨_, _, ⟨uid, gid⟩, _, -, hcmdline⟩ := hids.of_bind_ok
  obtain ⟨_, _, cmdline, _, -, hexe⟩ := hcmdline.of_bind_ok
  obtain ⟨_, _, exe, _, -, hmemory⟩ := hexe.of_bind_ok
  obtain ⟨_, _, memory, _, -, hcgroup⟩ := hmemory.of_bind_ok
  obtain ⟨_, _, cgroup, _, -, hfiles⟩ := hcgroup.of_bind_ok
  obtain ⟨_, _, openFiles, _, -, hresult⟩ := hfiles.of_bind_ok
  cases hresult.of_pure.2
  rfl

end LinuxAdapter

def hostAdapter : LinuxAdapter := ⟨"/proc", "/sys/fs/cgroup", 4096⟩

/-- Another user's daemon as an ordinary user sees it: what ptrace rights guard is refused. -/
def othersDaemon : FileSystem
  | .readFile path => match path with
    | "/proc/4242/stat" => .ok
        "4242 (sshd) S 1 4242 4242 0 -1 0 0 0 0 0 7 3 0 0 20 0 1 0 98765 0 0\n".toUTF8
    | "/proc/4242/status" => .ok "Uid:\t0\t0\t0\t0\nGid:\t0\t0\t0\t0\nVmSwap:\t0 kB\n".toUTF8
    | "/proc/4242/cmdline" => .ok "sshd\x00-D\x00".toUTF8
    | "/proc/4242/statm" => .ok "3000 1200 800 100 0 300 0\n".toUTF8
    | "/proc/4242/smaps_rollup" => .error .permissionDenied
    | "/proc/4242/cgroup" => .ok "0::/system.slice/ssh.service\n".toUTF8
    | _ => .error .notFound
  | .readLink _ => .error .permissionDenied
  | .readDir _ => .error .permissionDenied
  | .metadata _ => .error .permissionDenied

private theorem othersDaemon_core : LinuxAdapter.CoreReadable hostAdapter 4242 othersDaemon where
  stat := ⟨"4242 (sshd) S 1 4242 4242 0 -1 0 0 0 0 0 7 3 0 0 20 0 1 0 98765 0 0\n".toList,
    exists_and_left.mpr ⟨by decide +kernel, exists_eq_ok (by decide +kernel)⟩⟩
  status := ⟨"Uid:\t0\t0\t0\t0\nGid:\t0\t0\t0\t0\nVmSwap:\t0 kB\n".toList, 0, 0, by decide +kernel,
    by decide +kernel, by decide +kernel, (readKbField_ok_iff _ _ "status").mp ⟨some 0, by decide +kernel⟩⟩
  statm := ⟨"3000 1200 800 100 0 300 0\n".toList, (3000 * 4096, 1200 * 4096), by decide +kernel,
    by decide +kernel⟩

theorem process_fails_for_others_daemon :
    LinuxAdapter.CoreReadable hostAdapter 4242 othersDaemon ∧
    (hostAdapter.process 4242).resultOn othersDaemon =
      .error (.permissionDenied "/proc/4242/smaps_rollup") :=
  ⟨othersDaemon_core, by decide +kernel⟩

/-- The same daemon on a kernel without smaps_rollup. -/
def oldKernelDaemon : FileSystem := othersDaemon.withFile "/proc/4242/smaps_rollup" (.error .notFound)

theorem process_ok_for_old_kernel_daemon :
    ∃ snapshot, (hostAdapter.process 4242).resultOn oldKernelDaemon = .ok snapshot ∧
      LinuxAdapter.Degrades hostAdapter 4242 oldKernelDaemon snapshot := by
  have hiff := LinuxAdapter.process_ok_iff hostAdapter 4242 oldKernelDaemon (othersDaemon_core.congr ?core)
  refine hiff.mpr ⟨.inl ?_, .inr ?_⟩
  case core =>
    intro name hname
    rw [oldKernelDaemon, FileSystem.text_withFile, if_neg]
    revert name
    decide
  · rw [oldKernelDaemon, FileSystem.text_withFile, if_pos (by decide)]
    rfl
  · rw [oldKernelDaemon, FileSystem.text_withFile, if_neg (by decide)]
    exact ⟨"0::/system.slice/ssh.service\n".toList, by decide +kernel⟩

end ProcessExplorer.Telemetry.Linux
