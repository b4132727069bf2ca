import ProcessExplorer.Library.Utf8
import ProcessExplorer.Telemetry.Linux.Procfs.Process

/-! A command line as the kernel keeps it, and what is read back. Each argument ends in a NUL, so an empty
one is a NUL that follows another, and is dropped with the empty piece after the last. -/
namespace ProcessExplorer.Telemetry.Linux
open Library Model

/-- Every argument with its NUL. -/
def cmdlineFile (args : List String) : ByteArray :=
  (Text.utf8 ((args.map String.toList).flatMap (· ++ ['\x00']))).toByteArray

section Cmdline
variable (fs : FileSystem) (root : String) (pid : Pid) {args : List String}

theorem resultOn_readCmdline (hnul : ∀ arg ∈ args, '\x00' ∉ arg.toList) :
    (readCmdline root pid).resultOn (fs.withFile (procPath root pid "cmdline") (.ok (cmdlineFile args))) =
      .ok (args.filter (· ≠ "")) := by
  have htext : (fs.withFile (procPath root pid "cmdline") (.ok (cmdlineFile args))).text
      (procPath root pid "cmdline") = .ok ((args.map String.toList).flatMap (· ++ ['\x00'])) := by
    rw [FileSystem.text_withFile, if_pos rfl, cmdlineFile, decoded, Text.fromUtf8_utf8]
  have hpieces : ∀ piece ∈ args.map String.toList, '\x00' ∉ piece := by simpa using hnul
  have hsplit := Text.splitOn_terminated hpieces
  rw [readCmdline, Procfs.resultOn_bind, resultOn_readToString, htext]
  change Except.ok ((((((args.map String.toList).flatMap (· ++ ['\x00'])).splitOn '\x00').filter (· ≠ [])).map
    String.ofList)) = _
  rw [hsplit, List.filter_append, List.filter_map, List.map_append, List.map_map]
  have hempty (arg : String) : (arg.toList = []) = (arg = "") := propext String.toList_eq_nil_iff
  simp [Function.comp_def, hempty]

/-- Arguments without NUL come back as they are exactly when none of them is empty. -/
theorem readCmdline_rendered_iff (hnul : ∀ arg ∈ args, '\x00' ∉ arg.toList) :
    (readCmdline root pid).resultOn (fs.withFile (procPath root pid "cmdline") (.ok (cmdlineFile args))) =
        .ok args ↔
      ∀ arg ∈ args, arg ≠ "" := by
  rw [resultOn_readCmdline fs root pid hnul, Except.ok.injEq, List.filter_eq_self]
  simp

end Cmdline

theorem readCmdline_of_daemon :
    (readCmdline "/proc" 4242).resultOn
      (FileSystem.withFile (.holding .empty) (procPath "/proc" 4242 "cmdline") (.ok (cmdlineFile ["sshd", "-D"]))) =
        .ok ["sshd", "-D"] :=
  (readCmdline_rendered_iff (.holding .empty) "/proc" 4242 (by decide)).mpr (by decide)

/-- Two command lines that mean different things to grep are one and the same when they are read. -/
theorem readCmdline_loses_empty_argument :
    let fs (args : List String) : FileSystem :=
      FileSystem.withFile (.holding .empty) "/proc/4242/cmdline" (.ok (cmdlineFile args))
    (readCmdline "/proc" 4242).resultOn (fs ["grep", "", "notes"]) = .ok ["grep", "notes"] ∧
      (readCmdline "/proc" 4242).resultOn (fs ["grep", "notes"]) = .ok ["grep", "notes"] := by
  intro fs
  have hpath : procPath "/proc" 4242 "cmdline" = "/proc/4242/cmdline" := by decide +kernel
  have hread (args : List String) (h : ∀ arg ∈ args, '\x00' ∉ arg.toList) :
      (readCmdline "/proc" 4242).resultOn (fs args) = .ok (args.filter (· ≠ "")) := by
    have := resultOn_readCmdline (.holding .empty) "/proc" 4242 h
    rwa [hpath] at this
  exact ⟨hread _ (by decide), hread _ (by decide)⟩

end ProcessExplorer.Telemetry.Linux
