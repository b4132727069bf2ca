import ProcessExplorer.Library.Utf8
import ProcessExplorer.Library.Words
import ProcessExplorer.Telemetry.Linux.Procfs.Common

/-! The stat line as the kernel prints it, and what is read back from it. -/
namespace ProcessExplorer.Telemetry.Linux
open Library Model

/-- The fields between the state and the start time that are not read, and those after it. -/
structure UnreadFields where
  ttyNr : ℤ
  tpgid : ℤ
  flags : ℤ
  minflt : ℤ
  cminflt : ℤ
  majflt : ℤ
  cmajflt : ℤ
  cutime : ℤ
  cstime : ℤ
  itrealvalue : ℤ
  further : List ℤ

/-- Field 4 and the fields after it. -/
def statNumbers (stat : StatFields) (unread : UnreadFields) : List ℤ :=
  [stat.ppid.toInt, stat.pgrp.toInt, stat.session.toInt, unread.ttyNr, unread.tpgid, unread.flags,
    unread.minflt, unread.cminflt, unread.majflt, unread.cmajflt, stat.utime.toNat, stat.stime.toNat,
    unread.cutime, unread.cstime, stat.priority.toInt, stat.nice.toInt, stat.numThreads.toNat,
    unread.itrealvalue, stat.starttime.toNat] ++ unread.further

section Line
variable (stat : StatFields) (unread : UnreadFields)

def beforeComm : Text := Text.ofInt stat.id.toInt ++ [' ']

def afterComm : Text :=
  ' ' :: ([stat.stateChar] ++ ((statNumbers stat unread).map Text.ofInt).flatMap (' ' :: ·))

/-- The line up to its last field: the pid, the comm in parentheses as it is, the state, and numbers. -/
def statLine : Text := beforeComm stat ++ '(' :: (stat.comm.toList ++ ')' :: afterComm stat unread)

/-- A process whose name imitates the rest of its line. -/
def imitator : StatFields :=
  { id := 42, comm := "a) R 1 (b", stateChar := 'S', ppid := 1, pgrp := 42, session := 42, utime := 7, stime := 3
    priority := -2, nice := -10, numThreads := 4, starttime := 98765 }

example : statLine imitator ⟨0, -1, 4194560, 12, 0, 1, 0, 5, 6, 0, [1024, 17]⟩ =
    "42 (a) R 1 (b) S 1 42 42 0 -1 4194560 12 0 1 0 7 3 5 6 -2 -10 4 0 98765 1024 17".toList := by decide

theorem statNumbers_words : ∀ w ∈ (statNumbers stat unread).map Text.ofInt,
    w ≠ [] ∧ ∀ c ∈ w, Text.isWhitespace c = false := by
  intro w hw
  obtain ⟨n, _, rfl⟩ := List.mem_map.mp hw
  exact ⟨Text.ofInt_ne_nil n, fun c hc => Text.not_isWhitespace_of_mem_ofInt hc⟩

theorem notMem_ofInt {c : Char} (hminus : c ≠ '-') (hdigit : c.isDigit = false) (n : ℤ) : c ∉ Text.ofInt n := by
  intro h
  rcases Text.mem_ofInt h with rfl | hd
  · exact hminus rfl
  · rw [hdigit] at hd
    cases hd

/-- The first opening parenthesis is the one before the comm. -/
theorem opening_notMem_beforeComm : '(' ∉ beforeComm stat := by
  simp only [beforeComm, List.mem_append, List.mem_singleton, not_or]
  exact ⟨notMem_ofInt (by decide) (by decide) _, by decide⟩

/-- The last closing parenthesis is the one after the comm. -/
theorem closing_notMem_afterComm (hstate : stat.stateChar ≠ ')') : ')' ∉ afterComm stat unread := by
  simp only [afterComm, List.mem_cons, List.mem_append, List.mem_flatMap, List.mem_map, List.not_mem_nil, or_false,
    not_or]
  refine ⟨by decide, hstate.symm, ?_⟩
  rintro ⟨_, ⟨n, _, rfl⟩, hc⟩
  exact notMem_ofInt (by decide) (by decide) n (hc.resolve_left (by decide))

theorem trimEnd_statLine {ending : Text} (hending : ∀ c ∈ ending, Text.isWhitespace c = true) :
    Text.trimEnd (statLine stat unread ++ ending) = statLine stat unread := by
  apply Text.trimEnd_append hending
  have hne : (statNumbers stat unread).map Text.ofInt ≠ [] := by simp [statNumbers]
  have hlast := Text.getLast?_words (statNumbers_words stat unread) hne
    (beforeComm stat ++ '(' :: (stat.comm.toList ++ ')' :: ' ' :: [stat.stateChar]))
  simpa [statLine, afterComm] using hlast

theorem trim_beforeComm : Text.trim (beforeComm stat) = Text.ofInt stat.id.toInt := by
  have hchars : ∀ c ∈ Text.ofInt stat.id.toInt, Text.isWhitespace c = false := fun c hc =>
    Text.not_isWhitespace_of_mem_ofInt hc
  have hstart : Text.trimStart (beforeComm stat) = beforeComm stat := by
    rw [beforeComm, Text.trimStart]
    cases htext : Text.ofInt stat.id.toInt with
    | nil => exact absurd htext (Text.ofInt_ne_nil _)
    | cons c rest =>
      have hc : Text.isWhitespace c = false := hchars c (htext ▸ List.mem_cons_self)
      rw [List.cons_append, List.dropWhile_cons_of_neg (by simp [hc])]
  rw [Text.trim, hstart, beforeComm]
  exact Text.trimEnd_append (List.forall_mem_singleton.mpr rfl) fun c hc => hchars c (List.mem_of_getLast? hc)

theorem fields_afterComm (hstate : Text.isWhitespace stat.stateChar = false) :
    Text.splitWhitespace (Text.trimStart (afterComm stat unread)) =
      [stat.stateChar] :: (statNumbers stat unread).map Text.ofInt := by
  rw [afterComm, Text.trimStart, List.dropWhile_cons_of_pos (by decide), List.singleton_append,
    List.dropWhile_cons_of_neg (by simp [hstate]), ← List.singleton_append]
  exact Text.splitWhitespace_words _ (statNumbers_words stat unread) _ (by simp) (by simpa using hstate)

end Line

theorem parseI64_i32 (n : Int32) : Text.parseI64 (Text.ofInt n.toInt) = some n.toInt := by
  have hmin := n.le_toInt
  have hmax := n.toInt_lt
  apply Text.parseI64_ofInt
  · exact Int.le_trans (by decide) hmin
  · exact Int.le_trans (Int.le_of_lt hmax) (by decide)

theorem parseI64_nat {n : ℕ} (h : n < 2 ^ 63) : Text.parseI64 (Text.ofInt n) = some (n : ℤ) := by
  apply Text.parseI64_ofInt
  · exact Int.le_trans (by decide) (Int.natCast_nonneg n)
  · exact Int.ofNat_le.mpr (Nat.le_pred_of_lt h)

theorem ofInt_u64 (n : UInt64) : UInt64.ofInt n.toNat = n := by
  have hmod : ((n.toNat : ℤ) % 2 ^ 64).toNat = n.toNat := by
    have := n.toNat_lt
    omega
  rw [UInt64.ofInt, hmod, UInt64.ofNat_toNat]

theorem ofInt_u32 (n : UInt32) : UInt32.ofInt n.toNat = n := by
  have hmod : ((n.toNat : ℤ) % 2 ^ 32).toNat = n.toNat := by
    have := n.toNat_lt
    omega
  rw [UInt32.ofInt, hmod, UInt32.ofNat_toNat]

/-- What the kernel prints for a process: ticks and start time are below 2 ^ 63, the state is a letter. -/
structure StatFile where
  stat : StatFields
  unread : UnreadFields
  stateChar_visible : Text.isWhitespace stat.stateChar = false
  stateChar_ne : stat.stateChar ≠ ')'
  utime_lt : stat.utime.toNat < 2 ^ 63
  stime_lt : stat.stime.toNat < 2 ^ 63
  starttime_lt : stat.starttime.toNat < 2 ^ 63

namespace StatFile

/-- The same process under another name. -/
def withComm (file : StatFile) (comm : String) : StatFile :=
  { file with stat := { file.stat with comm } }

/-- The comm ends at the last closing parenthesis, so it may hold any character. -/
theorem parse (file : StatFile) {ending : Text} (path : String)
    (hending : ∀ c ∈ ending, Text.isWhitespace c = true) :
    parseStatLine (statLine file.stat file.unread ++ ending) path = .ok file.stat := by
  obtain ⟨stat, unread, hstate, hparen, hutime, hstime, hstarttime⟩ := file
  dsimp only
  have hopening : (statLine stat unread).idxOf? '(' = some (beforeComm stat).length :=
    Text.idxOf?_append_cons (opening_notMem_beforeComm stat)
  have hsplit : statLine stat unread =
      (beforeComm stat ++ '(' :: stat.comm.toList) ++ ')' :: afterComm stat unread := by simp [statLine]
  have hclosing : Text.rfind ')' (statLine stat unread) =
      some (beforeComm stat ++ '(' :: stat.comm.toList).length :=
    hsplit ▸ Text.rfind_append_cons (closing_notMem_afterComm stat unread hparen)
  have hid : (statLine stat unread).take (beforeComm stat).length = beforeComm stat := List.take_left
  have hcomm : ((statLine stat unread).take (beforeComm stat ++ '(' :: stat.comm.toList).length).drop
      ((beforeComm stat).length + 1) = stat.comm.toList := by
    rw [hsplit, List.take_left, List.drop_append]
    simp
  have hrest : (statLine stat unread).drop ((beforeComm stat ++ '(' :: stat.comm.toList).length + 1) =
      afterComm stat unread := by
    rw [hsplit, ← List.drop_drop, List.drop_left]
    rfl
  have hlength : (beforeComm stat).length < (beforeComm stat ++ '(' :: stat.comm.toList).length := by simp
  simp only [parseStatLine, trimEnd_statLine stat unread hending, hopening, hclosing, if_neg (not_le.mpr hlength),
    hid, hcomm, hrest, trim_beforeComm, fields_afterComm stat unread hstate, Text.parseI32_ofInt]
  have hlong : ¬ ([stat.stateChar] :: (statNumbers stat unread).map Text.ofInt).length < 20 := by
    simp [statNumbers]
  have hthreads : stat.numThreads.toNat < 2 ^ 63 := lt_trans stat.numThreads.toNat_lt (by decide)
  rw [if_neg hlong]
  simp [statNumbers, parseI64_i32, parseI64_nat hutime, parseI64_nat hstime, parseI64_nat hstarttime,
    parseI64_nat hthreads, ofInt_u64, ofInt_u32]

end StatFile

/-- What a stat line of the kernel says is read back from it, whatever the comm. -/
theorem parseStatLine_statLine (stat : StatFields) (unread : UnreadFields) (ending : Text) (path : String)
    (hstate : Text.isWhitespace stat.stateChar = false) (hparen : stat.stateChar ≠ ')')
    (hutime : stat.utime.toNat < 2 ^ 63) (hstime : stat.stime.toNat < 2 ^ 63)
    (hstarttime : stat.starttime.toNat < 2 ^ 63) (hending : ∀ c ∈ ending, Text.isWhitespace c = true) :
    parseStatLine (statLine stat unread ++ ending) path = .ok stat :=
  StatFile.parse ⟨stat, unread, hstate, hparen, hutime, hstime, hstarttime⟩ path hending

theorem parseStatLine_imitator :
    parseStatLine (statLine imitator ⟨0, -1, 4194560, 12, 0, 1, 0, 5, 6, 0, [1024, 17]⟩ ++ ['\n']) "stat" =
      .ok imitator :=
  parseStatLine_statLine imitator _ ['\n'] "stat" (by decide) (by decide) (by decide) (by decide) (by decide)
    (List.forall_mem_singleton.mpr rfl)

namespace StatFile
variable (file : StatFile)

/-- The whole file, where the name is whatever bytes the process has chosen. -/
def bytes (comm : List UInt8) : ByteArray :=
  (Text.utf8 (beforeComm file.stat) ++
    40 :: (comm ++ 41 :: Text.utf8 (afterComm file.stat file.unread ++ ['\n']))).toByteArray

theorem bytes_utf8 (name : Text) :
    file.bytes (Text.utf8 name) =
      (Text.utf8 (statLine (file.withComm (String.ofList name)).stat file.unread ++ ['\n'])).toByteArray := by
  have hopening : String.utf8EncodeChar '(' = [40] := by decide
  have hclosing : String.utf8EncodeChar ')' = [41] := by decide
  have hbefore : beforeComm (file.withComm (String.ofList name)).stat = beforeComm file.stat := rfl
  have hafter : afterComm (file.withComm (String.ofList name)).stat file.unread =
      afterComm file.stat file.unread := rfl
  have hname : (file.withComm (String.ofList name)).stat.comm.toList = name := String.toList_ofList
  simp only [bytes, statLine, hbefore, hafter, hname, Text.utf8_append, Text.utf8_cons, hopening, hclosing,
    List.append_assoc, List.nil_append, List.cons_append]

/-- The name stands between two ASCII characters, so it alone decides whether the file is text. -/
theorem isUtf8_bytes_iff (comm : List UInt8) :
    Text.IsUtf8 (Text.utf8 (beforeComm file.stat) ++
      40 :: (comm ++ 41 :: Text.utf8 (afterComm file.stat file.unread ++ ['\n']))) ↔ Text.IsUtf8 comm := by
  have hopening : String.utf8EncodeChar '(' = [40] := by decide
  have hclosing : String.utf8EncodeChar ')' = [41] := by decide
  exact Text.isUtf8_between_iff (by decide) (by decide) hopening hclosing

/-- A name that is text is read back. -/
theorem parse_bytes (name : Text) (path : String) :
    ∃ content, decoded (.ok (file.bytes (Text.utf8 name))) = .ok content ∧
      parseStatLine content path = .ok (file.withComm (String.ofList name)).stat := by
  refine ⟨statLine (file.withComm (String.ofList name)).stat file.unread ++ ['\n'], ?_, ?_⟩
  · rw [bytes_utf8, decoded, Text.fromUtf8_utf8]
  · exact (file.withComm (String.ofList name)).parse path (List.forall_mem_singleton.mpr rfl)

/-- Any other name makes the whole file invalid. -/
theorem decoded_bytes {comm : List UInt8} (h : ¬ Text.IsUtf8 comm) :
    decoded (.ok (file.bytes comm)) = .error .invalidData := by
  rw [bytes, decoded, Text.fromUtf8_eq_none (mt (file.isUtf8_bytes_iff comm).mp h)]

end StatFile

end ProcessExplorer.Telemetry.Linux
