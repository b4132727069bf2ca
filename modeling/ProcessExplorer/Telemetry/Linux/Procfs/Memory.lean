import ProcessExplorer.Telemetry.Linux.Procfs.Common

/-! The memory of a process: smaps_rollup where the kernel provides it, else statm and VmSwap. -/
namespace ProcessExplorer.Telemetry.Linux
open Library Model

/-- The next field of statm and the fields after it. -/
def nextU64 (fields : List Text) (path : String) : Result (UInt64 × List Text) :=
  match fields with
  | [] => .error (parseErr path "statm has fewer fields than expected")
  | field :: fields => match Text.parseU64 field with
    | some n => .ok (n, fields)
    | none => .error (parseErr path "statm field is not an integer")

/-- Size and resident set in bytes; statm counts pages. -/
def parseStatm (content : Text) (path : String) (pageSize : UInt64) : Result (UInt64 × UInt64) := do
  let (size, fields) ← nextU64 (Text.splitWhitespace content) path
  let (resident, _) ← nextU64 fields path
  return (size * pageSize, resident * pageSize)

def readStatm (root : String) (pid : Pid) (pageSize : UInt64) : Procfs (UInt64 × UInt64) := do
  let path := procPath root pid "statm"
  let content ← readToString path
  Procfs.liftExcept (parseStatm content path pageSize)

/-- The value of a line such as "Rss:   51200 kB"; no such line is not an error. -/
def readKbField (content : Text) (key path : String) : Result (Option UInt64) :=
  match (Text.lines content).find? (key.toList <+: Text.trimStart ·) with
  | none => .ok none
  | some line =>
    match Text.splitWhitespace (Text.trimStartMatches key.toList (Text.trimStart line)) with
    | [] => .error (parseErr path ("'" ++ key ++ "' line has no value"))
    | value :: _ => match Text.parseU64 value with
      | some n => .ok (some n)
      | none => .error (parseErr path ("'" ++ key ++ "' value is not an integer"))

/-- A line with the key, if there is one, goes on with an unsigned 64-bit value. -/
def KbLineReadable (content : Text) (key : String) : Prop :=
  ∀ line, (Text.lines content).find? (key.toList <+: Text.trimStart ·) = some line →
    ∃ value rest n, Text.splitWhitespace (Text.trimStartMatches key.toList (Text.trimStart line)) =
      value :: rest ∧ Text.parseU64 value = some n

theorem readKbField_ok_iff (content : Text) (key path : String) :
    (∃ kb, readKbField content key path = .ok kb) ↔ KbLineReadable content key := by
  rw [readKbField, KbLineReadable]
  cases (Text.lines content).find? (key.toList <+: Text.trimStart ·) with
  | none => simp
  | some line =>
    simp only [Option.some.injEq, forall_eq']
    cases Text.splitWhitespace (Text.trimStartMatches key.toList (Text.trimStart line)) with
    | nil => simp
    | cons value rest => cases h : Text.parseU64 value <;> simp [h]

/-- The same value in bytes, zero when there is no such line. -/
def kbFieldBytes (content : Text) (key path : String) : Result UInt64 := do
  let kb ← readKbField content key path
  return kb.getD 0 * 1024

theorem kbFieldBytes_ok_iff (content : Text) (key path : String) :
    (∃ bytes, kbFieldBytes content key path = .ok bytes) ↔ KbLineReadable content key := by
  rw [← readKbField_ok_iff content key path, kbFieldBytes, exists_bind_eq_ok]
  simp [pure, Except.pure]

def readVmswap (root : String) (pid : Pid) : Procfs UInt64 := do
  let path := procPath root pid "status"
  let content ← readToString path
  Procfs.liftExcept (kbFieldBytes content "VmSwap:" path)

structure SmapsRollup where
  rss : UInt64
  anonymous : UInt64
  sharedClean : UInt64
  sharedDirty : UInt64
  privateClean : UInt64
  privateDirty : UInt64
  swap : UInt64

def parseSmapsRollup (content : Text) (path : String) : Result SmapsRollup := do
  let field (key : String) := kbFieldBytes content key path
  return {
    rss := ← field "Rss:"
    anonymous := ← field "Anonymous:"
    sharedClean := ← field "Shared_Clean:"
    sharedDirty := ← field "Shared_Dirty:"
    privateClean := ← field "Private_Clean:"
    privateDirty := ← field "Private_Dirty:"
    swap := ← field "Swap:" }

/-- The keys that read_smaps_rollup looks for. -/
def rollupKeys : List String :=
  ["Rss:", "Anonymous:", "Shared_Clean:", "Shared_Dirty:", "Private_Clean:", "Private_Dirty:", "Swap:"]

theorem parseSmapsRollup_ok_iff (content : Text) (path : String) :
    (∃ rollup, parseSmapsRollup content path = .ok rollup) ↔
      ∀ key ∈ rollupKeys, KbLineReadable content key := by
  simp only [parseSmapsRollup, exists_bind_eq_ok, rollupKeys, List.forall_mem_cons,
    ← kbFieldBytes_ok_iff content _ path]
  simp [pure, Except.pure]

def readSmapsRollup (root : String) (pid : Pid) : Procfs (Option SmapsRollup) := do
  let path := procPath root pid "smaps_rollup"
  match ← readToStringOptional path with
  | none => pure none
  | some content => do
    let rollup ← Procfs.liftExcept (parseSmapsRollup content path)
    pure (some rollup)

/-- The file is missing, or every line of it that is looked for has its value. -/
def RollupReadable (fs : FileSystem) (root : String) (pid : Pid) : Prop :=
  fs.text (procPath root pid "smaps_rollup") = .error .notFound ∨
  ∃ content, fs.text (procPath root pid "smaps_rollup") = .ok content ∧
    ∀ key ∈ rollupKeys, KbLineReadable content key

theorem readSmapsRollup_ok_iff (fs : FileSystem) (root : String) (pid : Pid) :
    (∃ rollup, (readSmapsRollup root pid).resultOn fs = .ok rollup) ↔ RollupReadable fs root pid := by
  simp only [readSmapsRollup, Procfs.resultOn_bind, exists_bind_eq_ok, resultOn_readToStringOptional_ok_iff]
  constructor
  · rintro ⟨_, ⟨h, rfl⟩ | ⟨content, h, rfl⟩, hok⟩
    · exact .inl h
    · refine .inr ⟨content, h, ?_⟩
      rw [← parseSmapsRollup_ok_iff content (procPath root pid "smaps_rollup")]
      simpa [exists_bind_eq_ok] using hok
  · rintro (h | ⟨content, h, hkeys⟩)
    · exact ⟨none, .inl ⟨h, rfl⟩, none, rfl⟩
    · refine ⟨some content, .inr ⟨content, h, rfl⟩, ?_⟩
      simpa [exists_bind_eq_ok] using (parseSmapsRollup_ok_iff content _).mpr hkeys

def saturatingSub (a b : UInt64) : UInt64 := if b ≤ a then a - b else 0

def readMemoryBreakdown (root : String) (pid : Pid) (pageSize : UInt64) : Procfs MemoryBreakdown := do
  let (vsz, statmRss) ← readStatm root pid pageSize
  match ← readSmapsRollup root pid with
  | some rollup => pure {
      rss := rollup.rss
      vsz := vsz
      anonymous := rollup.anonymous
      fileBacked := saturatingSub rollup.rss rollup.anonymous
      shared := rollup.sharedClean + rollup.sharedDirty
      priv := rollup.privateClean + rollup.privateDirty
      swap := rollup.swap }
  | none => do
    let swap ← readVmswap root pid
    pure { rss := statmRss, vsz, anonymous := 0, fileBacked := 0, shared := 0, priv := 0, swap }

/-- Without smaps_rollup the detailed fields are zero. -/
theorem readMemoryBreakdown_coarse (fs : FileSystem) (root : String) (pid : Pid) (pageSize : UInt64)
    {memory : MemoryBreakdown} (missing : fs.text (procPath root pid "smaps_rollup") = .error .notFound)
    (h : (readMemoryBreakdown root pid pageSize).resultOn fs = .ok memory) :
    memory.anonymous = 0 ∧ memory.fileBacked = 0 ∧ memory.shared = 0 ∧ memory.priv = 0 := by
  simp only [readMemoryBreakdown, Procfs.resultOn_bind, bind_eq_ok_iff, readSmapsRollup,
    resultOn_readToStringOptional_missing fs _ missing, ok_bind, Procfs.resultOn_pure, Except.ok.injEq] at h
  obtain ⟨sizes, -, swap, -, rfl⟩ := h
  exact ⟨rfl, rfl, rfl, rfl⟩

/-- With statm and VmSwap at hand, the memory is known unless smaps_rollup stands in the way. -/
theorem readMemoryBreakdown_ok_iff (fs : FileSystem) (root : String) (pid : Pid) (pageSize : UInt64)
    {sizes : UInt64 × UInt64} {swap : UInt64} (statm : (readStatm root pid pageSize).resultOn fs = .ok sizes)
    (vmswap : (readVmswap root pid).resultOn fs = .ok swap) :
    (∃ memory, (readMemoryBreakdown root pid pageSize).resultOn fs = .ok memory) ↔
      RollupReadable fs root pid := by
  rw [← readSmapsRollup_ok_iff, readMemoryBreakdown, Procfs.resultOn_bind, statm, ok_bind,
    Procfs.resultOn_bind, exists_bind_eq_ok]
  refine exists_congr fun rollup => and_iff_left_of_imp fun _ => ?_
  cases rollup <;> simp [vmswap]

end ProcessExplorer.Telemetry.Linux
