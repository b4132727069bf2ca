import ProcessExplorer.Library.Interaction
import ProcessExplorer.Library.Text
import ProcessExplorer.Telemetry.Adapter

/-! The accesses to /proc and /sys, the mapping of their errors, and the stat line. -/
namespace ProcessExplorer.Telemetry.Linux
open Library Model

/-- What std::fs::metadata tells about a file, a symbolic link being followed. -/
inductive FileType where
  | dir | charDevice | blockDevice | file | other
  deriving DecidableEq, Repr

/-- One access to the file system. -/
inductive Access where
  | readFile (path : String)
  | readLink (path : String)
  | readDir (path : String)
  | metadata (path : String)
  deriving DecidableEq

/-- What an access yields. A link target is the text to_string_lossy shows; an entry of a
directory has no name when its name is not valid UTF-8. -/
abbrev Access.Answer : Access → Type
  | .readFile _ => Except ErrorKind ByteArray
  | .readLink _ => Except ErrorKind String
  | .readDir _ => Except ErrorKind (List (Except ErrorKind (Option Text)))
  | .metadata _ => Except ErrorKind FileType

/-- A file system that does not change while it is read. -/
abbrev FileSystem := ∀ a : Access, a.Answer

section Result
variable {ε α β : Type}

@[simp] theorem ok_bind (a : α) (f : α → Except ε β) : (Except.ok a >>= f) = f a := rfl

@[simp] theorem error_bind (e : ε) (f : α → Except ε β) : (Except.error e >>= f) = .error e := rfl

theorem bind_eq_ok_iff (x : Except ε α) (f : α → Except ε β) (b : β) :
    x >>= f = .ok b ↔ ∃ a, x = .ok a ∧ f a = .ok b := by
  cases x <;> simp

theorem exists_bind_eq_ok (x : Except ε α) (f : α → Except ε β) :
    (∃ b, x >>= f = .ok b) ↔ ∃ a, x = .ok a ∧ ∃ b, f a = .ok b := by
  cases x <;> simp

theorem exists_eq_ok {x : Except ε α} (h : x.toBool = true) : ∃ a, x = .ok a := by
  cases x with
  | error e => exact absurd h Bool.false_ne_true
  | ok a => exact ⟨a, rfl⟩

end Result

/-- A reader of /proc: accesses, one after the other, and a result that may be an error. -/
abbrev Procfs (α : Type) := ExceptT TelemetryError (Interaction Access Access.Answer) α

namespace Procfs
variable {α β : Type}

def access (a : Access) : Procfs a.Answer := ExceptT.lift (Interaction.query a)

def readFile (path : String) : Procfs (Except ErrorKind ByteArray) := access (.readFile path)

def readLink (path : String) : Procfs (Except ErrorKind String) := access (.readLink path)

def readDir (path : String) : Procfs (Except ErrorKind (List (Except ErrorKind (Option Text)))) :=
  access (.readDir path)

def metadata (path : String) : Procfs (Except ErrorKind FileType) := access (.metadata path)

/-- The result of a reader as a value, for a caller that goes on after an error. -/
def attempt (x : Procfs α) : Procfs (Result α) := ExceptT.lift (ExceptT.run x)

def liftExcept (r : Result α) : Procfs α := ExceptT.mk (pure r)

/-- The result over a file system that does not change. -/
def resultOn (fs : FileSystem) (x : Procfs α) : Result α := Interaction.run fs (ExceptT.run x)

variable (fs : FileSystem) (path : String)

@[simp] theorem resultOn_pure (a : α) : resultOn fs (pure a) = .ok a := rfl

@[simp] theorem resultOn_throw (e : TelemetryError) : resultOn fs (throw e : Procfs α) = .error e := rfl

@[simp] theorem resultOn_lift (x : Interaction Access Access.Answer α) :
    resultOn fs (ExceptT.lift x) = .ok (Interaction.run fs x) := Interaction.run_bind fs x _

@[simp] theorem resultOn_readLink : resultOn fs (readLink path) = .ok (fs (.readLink path)) := rfl

@[simp] theorem resultOn_readDir : resultOn fs (readDir path) = .ok (fs (.readDir path)) := rfl

@[simp] theorem resultOn_metadata : resultOn fs (metadata path) = .ok (fs (.metadata path)) := rfl

@[simp] theorem resultOn_liftExcept (r : Result α) : resultOn fs (liftExcept r) = r := rfl

@[simp] theorem resultOn_bind (x : Procfs α) (f : α → Procfs β) :
    resultOn fs (x >>= f) = resultOn fs x >>= fun a => resultOn fs (f a) := by
  simp only [resultOn, ExceptT.run_bind, Interaction.run_bind]
  cases Interaction.run fs (ExceptT.run x) <;> rfl

@[simp] theorem resultOn_map (g : α → β) (x : Procfs α) : resultOn fs (g <$> x) = g <$> resultOn fs x :=
  resultOn_bind fs x fun a => pure (g a)

@[simp] theorem resultOn_attempt (x : Procfs α) : resultOn fs (attempt x) = .ok (resultOn fs x) :=
  resultOn_lift fs (ExceptT.run x)

end Procfs

/-- PathBuf::join on Unix. -/
def join (path name : String) : String :=
  if name.toList.head? = some '/' then name
  else if path.toList = [] ∨ path.toList.getLast? = some '/' then path ++ name
  else path ++ "/" ++ name

/-- The path of a file in the directory of a process. -/
def procPath (root : String) (pid : Pid) (name : String) : String := join (join root (toString pid)) name

def mapIoError (path : String) (source : ErrorKind) : TelemetryError :=
  if source = .permissionDenied then .permissionDenied path else .io path source

def parseErr (path message : String) : TelemetryError := .parse path message

/-- The outcome of std::fs::read_to_string, which takes valid UTF-8 only. -/
def decoded : Except ErrorKind ByteArray → Except ErrorKind Text
  | .error kind => .error kind
  | .ok bytes => match Text.fromUtf8 bytes with
    | some content => .ok content
    | none => .error .invalidData

def fsReadToString (path : String) : Procfs (Except ErrorKind Text) :=
  decoded <$> Procfs.readFile path

def readToString (path : String) : Procfs Text := do
  match ← fsReadToString path with
  | .ok content => pure content
  | .error source => throw (mapIoError path source)

/-- A missing file is not an error here. -/
def readToStringOptional (path : String) : Procfs (Option Text) := do
  match ← fsReadToString path with
  | .ok content => pure (some content)
  | .error .notFound => pure none
  | .error source => throw (mapIoError path source)

structure StatFields where
  id : Pid
  comm : String
  stateChar : Char
  ppid : Pid
  pgrp : Pid
  session : Pid
  utime : UInt64
  stime : UInt64
  priority : Int32
  nice : Int32
  numThreads : UInt32
  /-- Clock ticks since boot. -/
  starttime : UInt64

/-- The comm may itself hold parentheses, so it ends at the last one of the line. -/
def parseStatLine (content : Text) (path : String) : Result StatFields := do
  let content := Text.trimEnd content
  let some opening := content.idxOf? '(' | throw (parseErr path "missing '(' before comm")
  let some closing := Text.rfind ')' content | throw (parseErr path "missing ')' after comm")
  if closing ≤ opening then throw (parseErr path "malformed comm delimiters") else
  let idStr := Text.trim (content.take opening)
  let comm := String.ofList ((content.take closing).drop (opening + 1))
  let rest := Text.trimStart (content.drop (closing + 1))
  let fields := Text.splitWhitespace rest
  if fields.length < 20 then
    throw (parseErr path
      ("expected at least 20 fields after comm, found " ++ toString fields.length)) else
  -- `rest` starts at field 3, the state.
  let field (n : ℕ) : Result Text := match fields[n - 3]? with
    | some s => .ok s
    | none => .error (parseErr path ("missing field " ++ toString n))
  let parseNum (s : Text) : Result ℤ := match Text.parseI64 s with
    | some n => .ok n
    | none => .error (parseErr path ("expected an integer, got '" ++ String.ofList s ++ "'"))
  let some id := Text.parseI32 idStr
    | throw (parseErr path ("expected an integer pid, got '" ++ String.ofList idStr ++ "'"))
  let stateChar := (← field 3).head?.getD '?'
  let ppid ← parseNum (← field 4)
  let pgrp ← parseNum (← field 5)
  let session ← parseNum (← field 6)
  let utime ← parseNum (← field 14)
  let stime ← parseNum (← field 15)
  let priority ← parseNum (← field 18)
  let nice ← parseNum (← field 19)
  let numThreads ← parseNum (← field 20)
  let starttime ← parseNum (← field 22)
  return {
    id, comm, stateChar
    ppid := .ofInt ppid
    pgrp := .ofInt pgrp
    session := .ofInt session
    utime := .ofInt utime
    stime := .ofInt stime
    priority := .ofInt priority
    nice := .ofInt nice
    numThreads := .ofInt numThreads
    starttime := .ofInt starttime }

/-- The entries of a directory whose names are numbers. -/
def listNumericEntries (dir : String) : Procfs (List Pid) := do
  match ← Procfs.readDir dir with
  | .error source => throw (mapIoError dir source)
  | .ok entries => collect entries
where
  collect : List (Except ErrorKind (Option Text)) → Procfs (List Pid)
    | [] => pure []
    | .error source :: _ => throw (mapIoError dir source)
    | .ok name :: entries => do
      let ids ← collect entries
      match name.bind Text.parseI32 with
      | some id => pure (id :: ids)
      | none => pure ids

section Outcomes
variable (fs : FileSystem) (path : String)

/-- The text of a file, or why it cannot be had. -/
def FileSystem.text : Except ErrorKind Text := decoded (fs (.readFile path))

@[simp] theorem resultOn_fsReadToString : Procfs.resultOn fs (fsReadToString path) = .ok (fs.text path) :=
  Procfs.resultOn_map fs decoded (Procfs.readFile path)

@[simp] theorem resultOn_readToString :
    Procfs.resultOn fs (readToString path) = (fs.text path).mapError (mapIoError path) := by
  simp only [readToString, Procfs.resultOn_bind, resultOn_fsReadToString, ok_bind]
  cases fs.text path <;> rfl

theorem resultOn_readToStringOptional_missing (h : fs.text path = .error .notFound) :
    Procfs.resultOn fs (readToStringOptional path) = .ok none := by
  simp [readToStringOptional, h]

theorem resultOn_readToStringOptional_ok_iff (content : Option Text) :
    Procfs.resultOn fs (readToStringOptional path) = .ok content ↔
      (fs.text path = .error .notFound ∧ content = none) ∨
      ∃ c, fs.text path = .ok c ∧ content = some c := by
  simp only [readToStringOptional, Procfs.resultOn_bind, resultOn_fsReadToString, ok_bind]
  rcases fs.text path with (_ | _ | _ | _) | c <;> simp [eq_comm]

/-- Reading a file is one access. -/
theorem readToString_run : (readToString path).run =
    .ask (.readFile path) fun a => .pure ((decoded a).mapError (mapIoError path)) := by
  have hmatch (r : Except ErrorKind Text) :
      ExceptT.run (match r with
        | .ok content => (pure content : Procfs Text)
        | .error source => throw (mapIoError path source)) = .pure (r.mapError (mapIoError path)) := by
    cases r <;> rfl
  exact congrArg (Interaction.ask (Access.readFile path)) (funext fun a => hmatch (decoded a))

theorem reaches_readToString {t : Interaction.Transcript Access Access.Answer} {content : Text}
    (h : (readToString path).run.Reaches t (.pure (.ok content))) :
    ∃ a, t = [⟨.readFile path, a⟩] ∧ decoded a = .ok content := by
  rw [readToString_run] at h
  cases h with
  | answered _ _ a h =>
    obtain ⟨rfl, hr⟩ := h.of_pure
    refine ⟨a, rfl, ?_⟩
    cases hd : decoded a with
    | ok c => simpa [hd, Except.mapError, eq_comm] using hr
    | error source => simp [hd, Except.mapError] at hr

theorem collect_asks_nothing (entries : List (Except ErrorKind (Option Text))) (dir : String) :
    ∃ result, (listNumericEntries.collect dir entries).run = .pure result := by
  induction entries with
  | nil => exact ⟨.ok [], rfl⟩
  | cons entry entries ih =>
    cases entry with
    | error source => exact ⟨_, rfl⟩
    | ok name =>
      obtain ⟨result, hresult⟩ := ih
      rw [listNumericEntries.collect, ExceptT.run_bind, hresult]
      cases result with
      | error e => exact ⟨.error e, rfl⟩
      | ok ids =>
        cases hid : name.bind Text.parseI32 with
        | none => exact ⟨.ok ids, rfl⟩
        | some id => exact ⟨.ok (id :: ids), rfl⟩

/-- A listing looks at its directory only. -/
theorem reaches_listNumericEntries {dir : String} {t : Interaction.Transcript Access Access.Answer}
    {result : Result (List Pid)} (h : (listNumericEntries dir).run.Reaches t (.pure result)) :
    ∃ answer, t = [⟨.readDir dir, answer⟩] := by
  obtain ⟨next, hrun, hnext⟩ : ∃ next, (listNumericEntries dir).run = .ask (.readDir dir) next ∧
      ∀ answer, ∃ result, next answer = .pure result := by
    refine ⟨_, rfl, fun answer => ?_⟩
    cases answer with
    | error source => exact ⟨_, rfl⟩
    | ok entries => exact collect_asks_nothing entries dir
  rw [hrun] at h
  cases h with
  | answered _ _ answer h =>
    obtain ⟨result', hresult⟩ := hnext answer
    rw [hresult] at h
    exact ⟨answer, by rw [h.of_pure.1]⟩

/-- The same file system but for what reading one file yields. -/
def FileSystem.withFile (answer : Except ErrorKind ByteArray) : FileSystem
  | .readFile p => if p = path then answer else fs (.readFile p)
  | .readLink p => fs (.readLink p)
  | .readDir p => fs (.readDir p)
  | .metadata p => fs (.metadata p)

/-- Every file holds the same bytes, and there is nothing else. -/
def FileSystem.holding (content : ByteArray) : FileSystem
  | .readFile _ => .ok content
  | .readLink _ => .error .notFound
  | .readDir _ => .error .notFound
  | .metadata _ => .error .notFound

theorem FileSystem.text_withFile (answer : Except ErrorKind ByteArray) (p : String) :
    (fs.withFile path answer).text p = if p = path then decoded answer else fs.text p :=
  apply_ite decoded (p = path) answer (fs (.readFile p))

end Outcomes

end ProcessExplorer.Telemetry.Linux
