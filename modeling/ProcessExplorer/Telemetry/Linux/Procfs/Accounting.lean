import ProcessExplorer.Library.KeyedLines
import ProcessExplorer.Library.Utf8
import ProcessExplorer.Model.Evidence
import ProcessExplorer.Telemetry.Linux.Procfs.Net
import ProcessExplorer.Telemetry.Linux.Procfs.ProcessFiles
import ProcessExplorer.Telemetry.Linux.Procfs.StatLine

/-! io, schedstat, limits, environ and the namespaces of a process: how they are read, the texts in which the kernel
shows them, and what comes back. -/
namespace ProcessExplorer.Telemetry.Linux
open Library Model

/-- All of schedstat. -/
structure Schedstat extends SchedulerStats where
  timeslices : UInt64

structure FdLimits where
  soft : Option UInt64
  hard : Option UInt64
  deriving DecidableEq

structure EnvVar where
  key : String
  value : String
  deriving DecidableEq

structure NamespaceInfo where
  pid : Pid
  mnt : UInt64
  net : UInt64
  user : UInt64
  uts : UInt64
  ipc : UInt64
  cgroup : Option UInt64
  deriving DecidableEq

/-- The number that stands alone behind a key. -/
def ioField (content : Text) (key path : String) : Result UInt64 :=
  match (Text.lines content).find? (key.toList <+: ·) with
  | none => .error (parseErr path ("missing '" ++ key ++ "' line"))
  | some line => match Text.parseU64 (Text.trim (Text.trimStartMatches key.toList line)) with
    | some n => .ok n
    | none => .error (parseErr path ("'" ++ key ++ "' value is not an integer"))

/-- The next field of schedstat and the fields after it. -/
def nextSchedstat (fields : List Text) (path : String) : Result (UInt64 × List Text) :=
  match fields with
  | [] => .error (parseErr path "schedstat has fewer than 3 fields")
  | field :: fields => match Text.parseU64 field with
    | some n => .ok (n, fields)
    | none => .error (parseErr path "schedstat field is not an integer")

def parseSchedstat (content : Text) (path : String) : Result Schedstat := do
  let (onCpuNs, fields) ← nextSchedstat (Text.splitWhitespace content) path
  let (waitNs, fields) ← nextSchedstat fields path
  let (timeslices, _) ← nextSchedstat fields path
  return { onCpuNs, waitNs, timeslices }

/-- Only this word is no limit; anything else that is no number is an error. -/
def parseLimitValue (path : String) (s : Text) : Result (Option UInt64) :=
  if s = "unlimited".toList then .ok none else
  match Text.parseU64 s with
  | some n => .ok (some n)
  | none => .error (parseErr path
      ("limit value is not an integer or 'unlimited': '" ++ String.ofList s ++ "'"))

/-- The name of the limit is three words. -/
def parseFdLimits (content : Text) (path : String) : Result FdLimits :=
  match (Text.lines content).find? ("Max open files".toList <+: ·) with
  | none => .error (parseErr path "missing 'Max open files' line")
  | some line => match (Text.splitWhitespace line).drop 3 with
    | [] => .error (parseErr path "'Max open files' line has no soft limit")
    | [_] => .error (parseErr path "'Max open files' line has no hard limit")
    | soft :: hard :: _ => do
      let soft ← parseLimitValue path soft
      let hard ← parseLimitValue path hard
      return ⟨soft, hard⟩

/-- An entry without an equals sign is a key with no value. -/
def envVar (entry : Text) : EnvVar :=
  match Text.splitOnce '=' entry with
  | some (key, value) => ⟨String.ofList key, String.ofList value⟩
  | none => ⟨String.ofList entry, ""⟩

/-- The number in the brackets of a target. A slice from the first opening to a closing one before it panics. -/
def nsInode (target : Text) (path : String) : Checked UInt64 :=
  match target.idxOf? '[', target.idxOf? ']' with
  | none, _ => throw (parseErr path "missing '[' in ns target")
  | some _, none => throw (parseErr path "missing ']' in ns target")
  | some opening, some closing =>
    if closing < opening then .panicked
    else match Text.parseU64 ((target.take closing).drop (opening + 1)) with
      | some inode => pure inode
      | none => throw (parseErr path "ns inode is not an integer")

/-- An error is given on as a value, a panic is not. -/
def ProcfsPanics.attempt {α : Type} (x : ProcfsPanics α) : ProcfsPanics (Result α) := OptionT.mk do
  match ← Procfs.attempt x.run with
  | .error e => pure (some (.error e))
  | .ok none => pure none
  | .ok (some a) => pure (some (.ok a))

section Read
variable (root : String) (pid : Pid)

def readIo : Procfs DiskIoStats := do
  let path := procPath root pid "io"
  let content ← readToString path
  let readBytes ← Procfs.liftExcept (ioField content "read_bytes:" path)
  let writeBytes ← Procfs.liftExcept (ioField content "write_bytes:" path)
  pure { readBytes, writeBytes }

def readSchedstat : Procfs Schedstat := do
  let path := procPath root pid "schedstat"
  let content ← readToString path
  Procfs.liftExcept (parseSchedstat content path)

def readFdLimits : Procfs FdLimits := do
  let path := procPath root pid "limits"
  let content ← readToString path
  Procfs.liftExcept (parseFdLimits content path)

def readEnviron : Procfs (List EnvVar) := do
  let content ← readToString (procPath root pid "environ")
  pure (((content.splitOn '\x00').filter (· ≠ [])).map envVar)

def readNsInode (kind : String) : ProcfsPanics UInt64 := do
  let path := join (procPath root pid "ns") kind
  match ← OptionT.lift (Procfs.readLink path) with
  | .error source => OptionT.lift (throw (mapIoError path source))
  | .ok target => (nsInode target.toList path).lift

/-- Only the namespace of the cgroups may be missing. -/
def readNamespaces : ProcfsPanics NamespaceInfo := do
  let mnt ← readNsInode root pid "mnt"
  let net ← readNsInode root pid "net"
  let user ← readNsInode root pid "user"
  let uts ← readNsInode root pid "uts"
  let ipc ← readNsInode root pid "ipc"
  let cgroup ← (readNsInode root pid "cgroup").attempt
  pure { pid, mnt, net, user, uts, ipc, cgroup := cgroup.toOption }

end Read

/-- The counters of io, in the order of the file. -/
structure IoFile where
  rchar : UInt64
  wchar : UInt64
  syscr : UInt64
  syscw : UInt64
  readBytes : UInt64
  writeBytes : UInt64
  cancelledWriteBytes : UInt64

def ioRow (key : String) (count : UInt64) : Text.Row := ⟨key.toList, ' ' :: Text.ofInt count.toNat⟩

def IoFile.rows (file : IoFile) : List Text.Row :=
  [ioRow "rchar" file.rchar, ioRow "wchar" file.wchar, ioRow "syscr" file.syscr, ioRow "syscw" file.syscw,
    ioRow "read_bytes" file.readBytes, ioRow "write_bytes" file.writeBytes,
    ioRow "cancelled_write_bytes" file.cancelledWriteBytes]

def IoFile.text (file : IoFile) : Text := Text.document file.rows

def schedstatText (stats : Schedstat) : Text :=
  Text.ofInt stats.onCpuNs.toNat ++
    ([stats.waitNs, stats.timeslices].map fun n => Text.ofInt n.toNat).flatMap (' ' :: ·) ++ ['\n']

/-- The limits that the kernel shows, with their units. -/
def limitNames : List (String × String) :=
  [("Max cpu time", "seconds"), ("Max file size", "bytes"), ("Max data size", "bytes"), ("Max stack size", "bytes"),
    ("Max core file size", "bytes"), ("Max resident set", "bytes"), ("Max processes", "processes"),
    ("Max open files", "files"), ("Max locked memory", "bytes"), ("Max address space", "bytes"),
    ("Max file locks", "locks"), ("Max pending signals", "signals"), ("Max msgqueue size", "bytes"),
    ("Max nice priority", ""), ("Max realtime priority", ""), ("Max realtime timeout", "us")]

def limitValue : Option UInt64 → Text
  | none => "unlimited".toList
  | some n => Text.ofInt n.toNat

/-- A limit that has no unit has no column for it. -/
def limitRow (limit : String × String) (values : FdLimits) : Text :=
  Text.padRight 25 limit.1.toList ++ ' ' :: (Text.padRight 20 (limitValue values.soft) ++ ' ' ::
    (Text.padRight 20 (limitValue values.hard) ++ ' ' ::
      if limit.2 = "" then [] else Text.padRight 10 limit.2.toList))

def limitsHeader : Text :=
  "Limit                     Soft Limit           Hard Limit           Units     ".toList

/-- The whole of limits, from the value of every limit by its name. -/
def limitsText (values : String → FdLimits) : Text :=
  (limitsHeader :: limitNames.map fun limit => limitRow limit (values limit.1)).flatMap (· ++ ['\n'])

example : limitRow ("Max open files", "files") ⟨some 1024, none⟩ =
    "Max open files            1024                 unlimited            files     ".toList := by decide

/-- Every entry with its NUL. -/
def environText (entries : List Text) : Text := entries.flatMap (· ++ ['\x00'])

def EnvVar.entry (var : EnvVar) : Text := var.key.toList ++ '=' :: var.value.toList

/-- The link of a namespace to its inode. -/
def nsText (kind : String) (inode : UInt64) : String :=
  String.ofList (kind.toList ++ ':' :: '[' :: (Text.ofInt inode.toNat ++ [']']))

example : nsText "mnt" 4026531841 = "mnt:[4026531841]" := by decide

section Counters

theorem plain_ioRow {key : String} (hkey : (⟨key.toList, []⟩ : Text.Row).Plain) (count : UInt64) :
    (ioRow key count).Plain := by
  have hdigits : '\n' ∉ Text.ofInt count.toNat := fun hmem => by cases (Text.isWord_ofInt _).2 _ hmem
  exact ⟨hkey.colon, hkey.keyLine, List.not_mem_cons_of_ne_of_not_mem (by decide) hdigits, hkey.visible⟩

/-- A counter is found by its key among rows of counters. -/
theorem ioField_document {rows : List Text.Row} (plain : ∀ row ∈ rows, row.Plain) {key field : String}
    (hfield : field.toList = key.toList ++ [':']) (hkey : ':' ∉ key.toList) {count : UInt64} (path : String)
    (hrow : rows.find? (·.key = key.toList) = some (ioRow key count)) :
    ioField (Text.document rows) field path = .ok count := by
  have hcolon : ∀ row ∈ rows.find? (·.key = key.toList), ':' ∉ row.value := by
    rw [hrow]
    rintro _ ⟨⟩
    exact List.not_mem_cons_of_ne_of_not_mem (by decide) (colon_notMem_ofInt _)
  have hword : Text.splitWhitespace (ioRow key count).value = [Text.ofInt count.toNat] := by
    rw [ioRow, Text.splitWhitespace_cons (by decide), Text.splitWhitespace_of_isWord (Text.isWord_ofInt _)]
  have hlookup := Text.wordsAfter_document plain hkey hcolon
  rw [hrow, Option.map_some, hword, ← hfield] at hlookup
  obtain ⟨line, hline, hwords⟩ := Option.map_eq_some_iff.mp hlookup
  rw [ioField, hline]
  dsimp only
  rw [Text.trim_of_word hwords, Text.parseU64_ofInt]

theorem IoFile.plain_rows (file : IoFile) : ∀ row ∈ file.rows, row.Plain := by
  simp only [IoFile.rows, List.forall_mem_cons]
  refine ⟨?_, ?_, ?_, ?_, ?_, ?_, ?_, List.forall_mem_nil _⟩
  all_goals exact plain_ioRow (by decide) _

theorem parseSchedstat_text (stats : Schedstat) (path : String) :
    parseSchedstat (schedstatText stats) path = .ok stats := by
  have hwords : ∀ w ∈ [stats.waitNs, stats.timeslices].map (fun n => Text.ofInt n.toNat),
      w ≠ [] ∧ ∀ c ∈ w, Text.isWhitespace c = false :=
    List.forall_mem_map.mpr fun n _ => Text.isWord_ofInt _
  have honCpu : Text.IsWord (Text.ofInt stats.onCpuNs.toNat) := Text.isWord_ofInt _
  rw [parseSchedstat, schedstatText, Text.splitWhitespace_concat (by decide),
    Text.splitWhitespace_words _ hwords _ honCpu.1 honCpu.2]
  simp [nextSchedstat, Text.parseU64_ofInt]

end Counters

section Limits
variable (values : String → FdLimits) (path : String)

theorem isWord_limitValue (value : Option UInt64) : Text.IsWord (limitValue value) := by
  cases value with
  | none => decide
  | some n => exact Text.isWord_ofInt _

theorem ofInt_ne_unlimited (n : ℤ) : Text.ofInt n ≠ "unlimited".toList := by
  intro h
  have hletter : 'u' ∉ Text.ofInt n := notMem_ofInt (by decide) (by decide) n
  rw [h] at hletter
  exact hletter (by decide)

theorem parseLimitValue_text (value : Option UInt64) : parseLimitValue path (limitValue value) = .ok value := by
  cases value with
  | none => rfl
  | some n =>
    have hparse := Text.parseU64_ofInt n
    unfold parseLimitValue limitValue
    dsimp only
    rw [if_neg (ofInt_ne_unlimited _), hparse]

/-- Only the row of open files starts with its name. -/
theorem prefix_limitRow : ∀ limit ∈ limitNames, ∀ limits : FdLimits,
    "Max open files".toList <+: limitRow limit limits ↔ limit.1 = "Max open files" := by
  have hname : ∀ limit ∈ limitNames, (Text.padRight 25 limit.1.toList).length = 25 ∧
      ("Max open files".toList <+: Text.padRight 25 limit.1.toList ↔ limit.1 = "Max open files") := by
    decide +kernel
  intro limit hlimit limits
  obtain ⟨hlength, hiff⟩ := hname limit hlimit
  rw [← hiff, limitRow]
  refine ⟨fun h => List.prefix_of_prefix_length_le h (List.prefix_append _ _) ?_, fun h =>
    h.trans (List.prefix_append _ _)⟩
  rw [hlength]
  decide

theorem newline_notMem_limitRow : ∀ limit ∈ limitNames, ∀ limits : FdLimits, '\n' ∉ limitRow limit limits := by
  have hname : ∀ limit ∈ limitNames, '\n' ∉ limit.1.toList ∧ '\n' ∉ limit.2.toList := by decide +kernel
  have hvalue (value : Option UInt64) : '\n' ∉ limitValue value := fun hmem => by
    cases (isWord_limitValue value).2 _ hmem
  intro limit hlimit limits
  obtain ⟨hkey, hunit⟩ := hname limit hlimit
  have hblank : '\n' ≠ ' ' := by decide
  refine List.not_mem_append (Text.notMem_padRight hblank hkey) (List.not_mem_cons_of_ne_of_not_mem hblank ?_)
  refine List.not_mem_append (Text.notMem_padRight hblank (hvalue _)) (List.not_mem_cons_of_ne_of_not_mem hblank ?_)
  refine List.not_mem_append (Text.notMem_padRight hblank (hvalue _)) (List.not_mem_cons_of_ne_of_not_mem hblank ?_)
  split
  · exact List.not_mem_nil
  · exact Text.notMem_padRight hblank hunit

/-- Every row ends in a blank. -/
theorem getLast?_limitRow : ∀ limit ∈ limitNames, ∀ limits : FdLimits,
    (limitRow limit limits).getLast? = some ' ' := by
  have hunit : ∀ limit ∈ limitNames, limit.2.toList.length < 10 := by decide +kernel
  intro limit hlimit limits
  rw [limitRow, List.getLast?_append_of_ne_nil _ (List.cons_ne_nil _ _),
    List.getLast?_cons_of_ne_nil (List.append_ne_nil_of_right_ne_nil _ (List.cons_ne_nil _ _)),
    List.getLast?_append_of_ne_nil _ (List.cons_ne_nil _ _),
    List.getLast?_cons_of_ne_nil (List.append_ne_nil_of_right_ne_nil _ (List.cons_ne_nil _ _)),
    List.getLast?_append_of_ne_nil _ (List.cons_ne_nil _ _)]
  split
  · rfl
  · have hlast := Text.getLast?_padRight (hunit limit hlimit)
    rw [List.getLast?_cons_of_ne_nil, hlast]
    rintro hnil
    rw [hnil] at hlast
    cases hlast

theorem lines_limitsText : Text.lines (limitsText values) =
    limitsHeader :: limitNames.map fun limit => limitRow limit (values limit.1) := by
  apply Text.lines_terminated
  · refine List.forall_mem_cons.mpr ⟨by decide, List.forall_mem_map.mpr fun limit hlimit => ?_⟩
    exact newline_notMem_limitRow limit hlimit _
  · refine List.forall_mem_cons.mpr ⟨by decide, List.forall_mem_map.mpr fun limit hlimit => ?_⟩
    rw [getLast?_limitRow limit hlimit]
    decide

theorem words_openFilesRow (limits : FdLimits) :
    Text.splitWhitespace (limitRow ("Max open files", "files") limits) =
      ["Max".toList, "open".toList, "files".toList] ++
        [limitValue limits.soft, limitValue limits.hard, "files".toList] := by
  have hname (t : Text) : Text.padRight 25 "Max open files".toList ++ ' ' :: t =
      ["Max".toList, "open".toList, "files".toList].flatMap (· ++ [' ']) ++ (List.replicate 11 ' ' ++ t) := rfl
  have hunit : Text.splitWhitespace (Text.padRight 10 "files".toList) = ["files".toList] := by decide
  rw [limitRow, hname, Text.splitWhitespace_columns (by decide), Text.splitWhitespace_replicate_append,
    Text.splitWhitespace_padRight_append (isWord_limitValue _),
    Text.splitWhitespace_padRight_append (isWord_limitValue _), if_neg (by decide), hunit]

theorem parseFdLimits_text : parseFdLimits (limitsText values) path = .ok (values "Max open files") := by
  have hfind : (Text.lines (limitsText values)).find? ("Max open files".toList <+: ·) =
      some (limitRow ("Max open files", "files") (values "Max open files")) := by
    have hnames : limitNames.find? (fun limit => decide (limit.1 = "Max open files")) =
        some ("Max open files", "files") := by decide +kernel
    have hcongr :
        limitNames.find? (fun limit => decide ("Max open files".toList <+: limitRow limit (values limit.1))) =
          limitNames.find? (fun limit => decide (limit.1 = "Max open files")) := by
      rw [← List.head?_filter, ← List.head?_filter]
      refine congrArg List.head? (List.filter_congr fun limit hlimit => ?_)
      exact decide_eq_decide.mpr (prefix_limitRow limit hlimit _)
    rw [lines_limitsText, List.find?_cons_of_neg (by decide), List.find?_map, Function.comp_def, hcongr, hnames]
    rfl
  rw [parseFdLimits, hfind]
  dsimp only
  rw [words_openFilesRow]
  simp [parseLimitValue_text]

end Limits

section Environ

/-- The entries come back but for those that are empty. -/
theorem entries_environText {entries : List Text} (h : ∀ entry ∈ entries, '\x00' ∉ entry) :
    ((environText entries).splitOn '\x00').filter (· ≠ []) = entries.filter (· ≠ []) := by
  rw [environText, Text.splitOn_terminated h, List.filter_append]
  simp

theorem EnvVar.entry_ne_nil (var : EnvVar) : var.entry ≠ [] :=
  List.append_ne_nil_of_right_ne_nil _ (List.cons_ne_nil _ _)

/-- A variable is read as it was set exactly when its key has no equals sign. -/
theorem envVar_entry_iff (var : EnvVar) : envVar var.entry = var ↔ '=' ∉ var.key.toList := by
  constructor
  · intro h hmem
    obtain ⟨pre, post, hkey⟩ := List.append_of_mem hmem
    obtain ⟨first, rest, hfirst, hnot⟩ := List.eq_append_cons_of_mem hmem
    have hentry : var.entry = first ++ '=' :: (rest ++ '=' :: var.value.toList) := by
      rw [EnvVar.entry, hfirst]
      simp
    have hread : (envVar var.entry).key = String.ofList first := by
      rw [hentry, envVar, Text.splitOnce_append_cons hnot]
    rw [h, String.ext_iff, String.toList_ofList, hfirst] at hread
    simp at hread
  · intro h
    rw [envVar, EnvVar.entry, Text.splitOnce_append_cons h]
    simp

end Environ

section Namespaces

/-- Any number in the first brackets of a target. -/
theorem nsInode_brackets {before : Text} (hopening : '[' ∉ before) (hclosing : ']' ∉ before) (inode : UInt64)
    (path : String) : (nsInode (before ++ '[' :: (Text.ofInt inode.toNat ++ [']'])) path).Returns inode := by
  have hend : before ++ '[' :: (Text.ofInt inode.toNat ++ [']']) =
      (before ++ '[' :: Text.ofInt inode.toNat) ++ ']' :: [] := by simp
  have hdigits : ']' ∉ Text.ofInt inode.toNat := notMem_ofInt (by decide) (by decide) _
  have hbefore : ']' ∉ before ++ '[' :: Text.ofInt inode.toNat :=
    List.not_mem_append hclosing (List.not_mem_cons_of_ne_of_not_mem (by decide) hdigits)
  have hfirst : (before ++ '[' :: (Text.ofInt inode.toNat ++ [']'])).idxOf? '[' = some before.length := by
    rw [Text.idxOf?_append_cons hopening]
  have hlast : (before ++ '[' :: (Text.ofInt inode.toNat ++ [']'])).idxOf? ']' =
      some (before ++ '[' :: Text.ofInt inode.toNat).length := by
    rw [hend, Text.idxOf?_append_cons hbefore]
  have hslice : ((before ++ '[' :: (Text.ofInt inode.toNat ++ [']'])).take
      (before ++ '[' :: Text.ofInt inode.toNat).length).drop (before.length + 1) = Text.ofInt inode.toNat := by
    rw [hend, List.take_left, List.append_cons, List.drop_left' (by simp)]
  have hle : ¬ (before ++ '[' :: Text.ofInt inode.toNat).length < before.length := by simp
  rw [nsInode, hfirst, hlast]
  dsimp only
  rw [if_neg hle, hslice, Text.parseU64_ofInt]
  exact (returns_pure _ _).mpr rfl

theorem nsInode_text {kind : String} (hopening : '[' ∉ kind.toList) (hclosing : ']' ∉ kind.toList) (inode : UInt64)
    (path : String) : (nsInode (nsText kind inode).toList path).Returns inode := by
  rw [nsText, String.toList_ofList, List.append_cons]
  have hopening' : '[' ∉ kind.toList ++ [':'] := List.not_mem_append hopening (by decide)
  have hclosing' : ']' ∉ kind.toList ++ [':'] := List.not_mem_append hclosing (by decide)
  exact nsInode_brackets hopening' hclosing' inode path

variable (fs : FileSystem)

theorem returns_attempt_ok {α : Type} {x : ProcfsPanics α} {a : α} (h : x.Returns fs a) :
    x.attempt.Returns fs (.ok a) := by
  rw [ProcfsPanics.Returns] at h
  simp [ProcfsPanics.Returns, ProcfsPanics.attempt, h]

theorem returns_attempt_error {α : Type} {x : ProcfsPanics α} {e : TelemetryError}
    (h : Procfs.resultOn fs x.run = .error e) : x.attempt.Returns fs (.error e) := by
  simp [ProcfsPanics.Returns, ProcfsPanics.attempt, h]

theorem returns_readNsInode {root : String} {pid : Pid} {kind : String} (hopening : '[' ∉ kind.toList)
    (hclosing : ']' ∉ kind.toList) {inode : UInt64}
    (h : fs (.readLink (join (procPath root pid "ns") kind)) = .ok (nsText kind inode)) :
    (readNsInode root pid kind).Returns fs inode := by
  have hlink : ProcfsPanics.Returns fs (OptionT.lift (Procfs.readLink (join (procPath root pid "ns") kind)))
      (.ok (nsText kind inode)) := (panics_returns_lift fs _ _).mpr (congrArg Except.ok h)
  rw [readNsInode, panics_returns_bind]
  exact ⟨_, hlink, (panics_returns_checked fs _ _).mpr (nsInode_text hopening hclosing inode _)⟩

theorem readNsInode_missing {root : String} {pid : Pid} {kind : String} {source : ErrorKind}
    (h : fs (.readLink (join (procPath root pid "ns") kind)) = .error source) :
    Procfs.resultOn fs (readNsInode root pid kind).run =
      .error (mapIoError (join (procPath root pid "ns") kind) source) := by
  simp [readNsInode, OptionT.run_bind, Option.elimM, h]

end Namespaces

end ProcessExplorer.Telemetry.Linux
