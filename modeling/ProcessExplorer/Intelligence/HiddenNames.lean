import ProcessExplorer.Intelligence.Queries
import ProcessExplorer.Library.Utf8
import ProcessExplorer.Telemetry.Linux.Adapter
import ProcessExplorer.Telemetry.Linux.Procfs.StatLine

/-! A process chooses the bytes of its name. The stat file is read as text before anything is parsed, so
a name that is not UTF-8 fails the whole read, and the refresh leaves the process out. -/
namespace ProcessExplorer.Intelligence
open Library Model Telemetry Telemetry.Linux

theorem process_isSome_of_reading (past : List Tick) {t : Tick} {pid : Pid} {read : ProcessSnapshot}
    (h : t.reading pid = some read) : ((afterRun (past ++ [t])).process pid).isSome := by
  have htr := tracks_run (past ++ [t]) pid
  rw [trackerOf_concat] at htr
  rw [ProcessIntelligence.process, htr.live, Option.isSome_map]
  obtain ⟨pids, hpids⟩ : t.Succeeds := by
    cases hl : t.adapter.listPids with
    | ok pids => exact ⟨pids, hl⟩
    | error e => simp [Tick.reading, hl] at h
  simp [Tick.experience, hpids, h, Tracker.step]

section Shown
variable (adapter : LinuxAdapter) (pid : Pid) (fs : FileSystem)

/-- The files of a process but for stat are readable and well formed, or missing where they may be. -/
structure RestReadable : Prop where
  status : ∃ content uid gid, fs.text (procPath adapter.root pid "status") = .ok content ∧
    firstStatusValue content "Uid:" (procPath adapter.root pid "status") = .ok uid ∧
    firstStatusValue content "Gid:" (procPath adapter.root pid "status") = .ok gid ∧
    KbLineReadable content "VmSwap:"
  statm : ∃ content sizes, fs.text (procPath adapter.root pid "statm") = .ok content ∧
    parseStatm content (procPath adapter.root pid "statm") adapter.pageSize = .ok sizes
  rollup : RollupReadable fs adapter.root pid
  cgroup : LinuxAdapter.CgroupReadable adapter pid fs

/-- A process does not hide: its stat is read and, with its other files readable, it has a snapshot and
stands in the table after every refresh that lists it. -/
structure Shown : Prop where
  stat : ∃ stat, (readStat adapter.root pid).resultOn fs = .ok stat
  snapshot : RestReadable adapter pid fs → ∃ snapshot, (adapter.process pid).resultOn fs = .ok snapshot
  table : RestReadable adapter pid fs → ∀ (past : List Tick) (t : Tick) (pids : List Pid),
    t.adapter.listPids = .ok pids → pid ∈ pids →
    t.adapter.process pid = (adapter.process pid).resultOn fs →
    ((afterRun (past ++ [t])).process pid).isSome

variable {adapter pid fs}

theorem Shown.of_stat {content : Text} {stat : StatFields}
    (htext : fs.text (procPath adapter.root pid "stat") = .ok content)
    (hstat : parseStatLine content (procPath adapter.root pid "stat") = .ok stat) : Shown adapter pid fs := by
  have hsnapshot (rest : RestReadable adapter pid fs) :
      ∃ snapshot, (adapter.process pid).resultOn fs = .ok snapshot :=
    (LinuxAdapter.exists_process_iff adapter pid fs
      ⟨⟨content, stat, htext, hstat⟩, rest.status, rest.statm⟩).mpr ⟨rest.rollup, rest.cgroup⟩
  refine ⟨⟨stat, by simp [readStat, htext, Except.mapError, hstat]⟩, hsnapshot, ?_⟩
  intro rest past t pids hpids hmem hread
  obtain ⟨snapshot, hsnapshot⟩ := hsnapshot rest
  have hreading : t.reading pid = some snapshot := by
    simp [Tick.reading, hpids, hmem, hread, hsnapshot, Except.toOption]
  exact process_isSome_of_reading past hreading

theorem not_shown_of_undecoded {source : ErrorKind}
    (h : fs.text (procPath adapter.root pid "stat") = .error source) : ¬ Shown adapter pid fs := by
  rintro ⟨⟨stat, hstat⟩, -, -⟩
  simp [readStat, h, Except.mapError] at hstat

end Shown

/-- A process hides by its name exactly when the name is not UTF-8. -/
theorem shown_iff_isUtf8 (adapter : LinuxAdapter) (pid : Pid) (fs : FileSystem) (file : StatFile)
    (comm : List UInt8) :
    Shown adapter pid (fs.withFile (procPath adapter.root pid "stat") (.ok (file.bytes comm))) ↔
      Text.IsUtf8 comm := by
  have htext : (fs.withFile (procPath adapter.root pid "stat") (.ok (file.bytes comm))).text
      (procPath adapter.root pid "stat") = decoded (.ok (file.bytes comm)) := by
    rw [FileSystem.text_withFile, if_pos rfl]
  constructor
  · intro hshown
    by_contra hcomm
    exact not_shown_of_undecoded (htext.trans (file.decoded_bytes hcomm)) hshown
  · rintro ⟨name, rfl⟩
    obtain ⟨content, hdecoded, hparse⟩ := file.parse_bytes name (procPath adapter.root pid "stat")
    exact Shown.of_stat (htext.trans hdecoded) hparse

def shellFile : StatFile where
  stat := { id := 4242, comm := "sh", stateChar := 'S', ppid := 1, pgrp := 4242, session := 4242, utime := 7
            stime := 3, priority := 20, nice := 0, numThreads := 1, starttime := 98765 }
  unread := ⟨0, -1, 4194560, 12, 0, 1, 0, 5, 6, 0, [1024, 17]⟩
  stateChar_visible := by decide
  stateChar_ne := by decide
  utime_lt := by decide
  stime_lt := by decide
  starttime_lt := by decide

theorem not_shown_one_byte :
    let fs := othersDaemon.withFile "/proc/4242/stat" (.ok (shellFile.bytes [0xff]))
    (readStat hostAdapter.root 4242).resultOn fs = .error (.io "/proc/4242/stat" .invalidData) ∧
      ¬ Shown hostAdapter 4242 fs := by
  intro fs
  have htext : fs.text "/proc/4242/stat" = .error .invalidData := by
    rw [FileSystem.text_withFile, if_pos rfl, shellFile.decoded_bytes (by decide +kernel)]
  have hpath : procPath hostAdapter.root 4242 "stat" = "/proc/4242/stat" := by decide +kernel
  refine ⟨?_, not_shown_of_undecoded (hpath ▸ htext)⟩
  simp [readStat, hpath, htext, Except.mapError, mapIoError]

end ProcessExplorer.Intelligence
