import Mathlib.Data.List.FinRange
import ProcessExplorer.Model.Evidence
import ProcessExplorer.Telemetry.Linux.Adapter

/-! The threads of a process, and what one of them takes with it when it exits while they are read. -/
namespace ProcessExplorer.Telemetry.Linux
open Library Model

/-- The mask that sched_getaffinity fills in. -/
abbrev CpuSet := Fin 1024 → Bool

section Threads
variable (schedGetaffinity : Pid → Except ErrorKind CpuSet) (root : String) (pid : Pid)

def readAffinity (pid : Pid) : Result (List UInt32) :=
  match schedGetaffinity pid with
  | .error source => .error (.io ("sched_getaffinity(" ++ toString pid ++ ")") source)
  | .ok set => .ok (((List.finRange 1024).filter set).map fun cpu => UInt32.ofNat cpu)

def listTids : Procfs (List Pid) := listNumericEntries (procPath root pid "task")

def threadPath (tid : Pid) : String := join (join (procPath root pid "task") (toString tid)) "stat"

/-- An affinity that cannot be had is an empty one. -/
def readThread (tid : Pid) : Procfs ThreadSnapshot := do
  let path := threadPath root pid tid
  let content ← readToString path
  let stat ← Procfs.liftExcept (parseStatLine content path)
  let affinity := (readAffinity schedGetaffinity tid).toOption.getD []
  pure {
    tid := stat.id
    name := stat.comm
    state := ProcessState.fromProcChar stat.stateChar
    cpu := ⟨stat.utime, stat.stime, 0, 0, 0⟩
    priority := stat.priority
    nice := stat.nice
    affinity := affinity }

/-- One error ends the collection. -/
def readThreads : List Pid → Procfs (List ThreadSnapshot)
  | [] => pure []
  | tid :: tids => do
    let thread ← readThread schedGetaffinity root pid tid
    let threads ← readThreads tids
    pure (thread :: threads)

end Threads

def LinuxAdapter.threads (adapter : LinuxAdapter) (schedGetaffinity : Pid → Except ErrorKind CpuSet) (pid : Pid) :
    Procfs (List ThreadSnapshot) := do
  let tids ← listTids adapter.root pid
  readThreads schedGetaffinity adapter.root pid tids

section Outcomes
variable (schedGetaffinity : Pid → Except ErrorKind CpuSet) (root : String) (pid : Pid) (fs : FileSystem)

/-- The stat file of a thread that is gone is not found, or cannot be read any more (ESRCH). -/
def Vanished (tid : Pid) : Prop :=
  fs.text (threadPath root pid tid) = .error .notFound ∨ fs.text (threadPath root pid tid) = .error (.other 3)

/-- The stat file of a thread that is still there. -/
def Readable (tid : Pid) : Prop :=
  ∃ content stat, fs.text (threadPath root pid tid) = .ok content ∧
    parseStatLine content (threadPath root pid tid) = .ok stat

variable {schedGetaffinity root pid fs}

theorem readThread_of_vanished {tid : Pid} (h : Vanished root pid fs tid) (thread : ThreadSnapshot) :
    (readThread schedGetaffinity root pid tid).resultOn fs ≠ .ok thread := by
  rcases h with h | h <;> simp [readThread, h, Except.mapError]

theorem Readable.not_vanished {tid : Pid} (h : Readable root pid fs tid) : ¬ Vanished root pid fs tid := by
  obtain ⟨content, stat, htext, -⟩ := h
  simp [Vanished, htext]

theorem readThread_of_readable {tid : Pid} (h : Readable root pid fs tid) :
    ∃ thread, (readThread schedGetaffinity root pid tid).resultOn fs = .ok thread := by
  obtain ⟨content, stat, htext, hstat⟩ := h
  simp [readThread, htext, hstat, Except.mapError]

/-- The snapshots of the threads that can be read, in order. -/
def snapshots (schedGetaffinity : Pid → Except ErrorKind CpuSet) (root : String) (pid : Pid) (fs : FileSystem)
    (tids : List Pid) : List ThreadSnapshot :=
  tids.filterMap fun tid => ((readThread schedGetaffinity root pid tid).resultOn fs).toOption

/-- The collection has the snapshots of the readable threads when there are no others. -/
theorem readThreads_eq_ok_iff (tids : List Pid) :
    (readThreads schedGetaffinity root pid tids).resultOn fs = .ok (snapshots schedGetaffinity root pid fs tids) ↔
      ∀ tid ∈ tids, ∃ thread, (readThread schedGetaffinity root pid tid).resultOn fs = .ok thread := by
  induction tids with
  | nil => simp [readThreads, snapshots]
  | cons tid tids ih =>
    rw [List.forall_mem_cons, ← ih, readThreads, Procfs.resultOn_bind]
    cases hthread : (readThread schedGetaffinity root pid tid).resultOn fs with
    | error e => simp
    | ok thread =>
      have hcons : snapshots schedGetaffinity root pid fs (tid :: tids) =
          thread :: snapshots schedGetaffinity root pid fs tids := by
        simp [snapshots, hthread, Except.toOption]
      rw [hcons]
      simp [bind_eq_ok_iff]

theorem classify_ok (fs : FileSystem) (fdPath target : String) :
    ∃ kind, (classify fdPath target).resultOn fs = .ok kind := by
  rw [classify]
  split
  · exact ⟨_, rfl⟩
  · split
    · exact ⟨_, rfl⟩
    · rw [Procfs.resultOn_bind, Procfs.resultOn_metadata, ok_bind]
      rcases fs (.metadata fdPath) with _ | _ | _ | _ | _ | _ <;> exact ⟨_, rfl⟩

/-- The same race on a descriptor costs that descriptor only. -/
theorem readFds_ok (fdDir : String) (fds : List Pid) :
    ∃ files, (readFds fdDir fds).resultOn fs = .ok files ∧
      files.map (·.fd) = fds.filter fun fd => (fs (.readLink (join fdDir (toString fd)))).toBool := by
  induction fds with
  | nil => exact ⟨[], rfl, rfl⟩
  | cons fd fds ih =>
    obtain ⟨files, hfiles, hfds⟩ := ih
    cases hlink : fs (.readLink (join fdDir (toString fd))) with
    | error source => exact ⟨files, by simp [readFds, hlink, hfiles], by simp [hlink, hfds, Except.toBool]⟩
    | ok target =>
      obtain ⟨kind, hkind⟩ := classify_ok fs (join fdDir (toString fd)) target
      exact ⟨⟨fd, target, kind⟩ :: files, by simp [readFds, hlink, hfiles, hkind],
        by simp [hlink, hfds, Except.toBool]⟩

end Outcomes

/-- Of the threads that were listed, those that are still there are returned, in the order of the listing,
exactly when all of them are. -/
theorem threads_remaining_iff (adapter : LinuxAdapter) (schedGetaffinity : Pid → Except ErrorKind CpuSet)
    (pid : Pid) (fs : FileSystem) (tids : List Pid) (hlist : (listTids adapter.root pid).resultOn fs = .ok tids)
    (hread : ∀ tid ∈ tids, Vanished adapter.root pid fs tid ∨ Readable adapter.root pid fs tid) :
    (adapter.threads schedGetaffinity pid).resultOn fs = .ok (snapshots schedGetaffinity adapter.root pid fs tids) ↔
      ∀ tid ∈ tids, ¬ Vanished adapter.root pid fs tid := by
  rw [LinuxAdapter.threads, Procfs.resultOn_bind, hlist, ok_bind, readThreads_eq_ok_iff]
  refine forall₂_congr fun tid hmem => ?_
  constructor
  · rintro ⟨thread, hthread⟩ hvanished
    exact readThread_of_vanished hvanished thread hthread
  · intro hthere
    exact readThread_of_readable ((hread tid hmem).resolve_left hthere)

def twoThreads : FileSystem
  | .readFile path => match path with
    | "/proc/100/task/100/stat" => .ok "100 (sherd) S 1 100 100 0 -1 0 0 0 0 0 500 250 0 0 20 0 2 0 7 0 0\n".toUTF8
    | "/proc/100/task/102/stat" =>
      .ok "102 (sherd:worker) R 1 100 100 0 -1 0 0 0 0 0 200 100 0 0 20 0 2 0 9 0 0\n".toUTF8
    | _ => .error .notFound
  | .readDir path => if path = "/proc/100/task" then .ok [.ok (some "100".toList), .ok (some "102".toList)]
    else .error .notFound
  | .readLink _ => .error .notFound
  | .metadata _ => .error .notFound

private theorem twoThreads_listed : (listTids hostAdapter.root 100).resultOn twoThreads = .ok [100, 102] := by
  decide +kernel

private theorem twoThreads_readable : ∀ tid ∈ [100, 102], Readable hostAdapter.root 100 twoThreads tid := by
  intro tid h
  rcases List.mem_pair.mp h with rfl | rfl
  · exact ⟨"100 (sherd) S 1 100 100 0 -1 0 0 0 0 0 500 250 0 0 20 0 2 0 7 0 0\n".toList,
      exists_and_left.mpr ⟨by decide +kernel, exists_eq_ok (by decide +kernel)⟩⟩
  · exact ⟨"102 (sherd:worker) R 1 100 100 0 -1 0 0 0 0 0 200 100 0 0 20 0 2 0 9 0 0\n".toList,
      exists_and_left.mpr ⟨by decide +kernel, exists_eq_ok (by decide +kernel)⟩⟩

theorem threads_remaining_both :
    (hostAdapter.threads (fun _ => .error .permissionDenied) 100).resultOn twoThreads =
      .ok (snapshots (fun _ => .error .permissionDenied) hostAdapter.root 100 twoThreads [100, 102]) :=
  (threads_remaining_iff hostAdapter _ 100 twoThreads [100, 102] twoThreads_listed
    fun tid h => .inr (twoThreads_readable tid h)).mpr fun tid h => (twoThreads_readable tid h).not_vanished

/-- The worker exits after it is listed: the other thread is there to be read, and nothing is returned. -/
theorem threads_hidden_by_vanished_worker :
    let fs := twoThreads.withFile "/proc/100/task/102/stat" (.error .notFound)
    (listTids hostAdapter.root 100).resultOn fs = .ok [100, 102] ∧
      Readable hostAdapter.root 100 fs 100 ∧ Vanished hostAdapter.root 100 fs 102 ∧
      (hostAdapter.threads (fun _ => .error .permissionDenied) 100).resultOn fs =
        .error (.io "/proc/100/task/102/stat" .notFound) := by
  intro fs
  refine ⟨by decide +kernel, ?_, .inl ?_, by decide +kernel⟩
  · obtain ⟨content, stat, htext, hstat⟩ := twoThreads_readable 100 (by simp)
    refine ⟨content, stat, ?_, hstat⟩
    rw [FileSystem.text_withFile, if_neg (by decide +kernel)]
    exact htext
  · rw [FileSystem.text_withFile, if_pos (by decide +kernel)]
    rfl

end ProcessExplorer.Telemetry.Linux
