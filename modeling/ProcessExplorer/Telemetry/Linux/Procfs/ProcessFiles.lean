import ProcessExplorer.Library.KeyedLines
import ProcessExplorer.Telemetry.Linux.Procfs.Cgroup
import ProcessExplorer.Telemetry.Linux.Procfs.Memory
import ProcessExplorer.Telemetry.Linux.Procfs.Process

/-! status, smaps_rollup, statm and the v2 cgroup of a process as the kernel prints them, and what is read back. -/
namespace ProcessExplorer.Telemetry.Linux
open Library Model

/-- A key of status with the ids of it, each after a tab. -/
def idRow (key : String) (ids : List UInt32) : Text.Row :=
  ⟨key.toList, ids.flatMap fun id => '\t' :: Text.ofInt id.toNat⟩

/-- A key with its size in kB, in eight columns after the blanks. -/
def kbRow (key : String) (blanks : Text) (kb : UInt64) : Text.Row :=
  ⟨key.toList, blanks ++ (Text.padLeft 8 (Text.ofInt kb.toNat) ++ " kB".toList)⟩

example : (kbRow "Rss" (List.replicate 12 ' ') 4800).line = "Rss:                4800 kB".toList := by decide

/-- The whole of status; a kernel thread has no VmSwap. -/
structure StatusFile where
  rows : List Text.Row
  uid : UInt32
  gid : UInt32
  swap : Option UInt64
  plain : ∀ row ∈ rows, row.Plain
  uidRow : ∃ others, rows.find? (·.key = "Uid".toList) = some (idRow "Uid" (uid :: others))
  gidRow : ∃ others, rows.find? (·.key = "Gid".toList) = some (idRow "Gid" (gid :: others))
  swapRow : rows.find? (·.key = "VmSwap".toList) = swap.map (kbRow "VmSwap" ['\t'])

/-- The whole of smaps_rollup: the address range it is about, and the sizes. -/
structure RollupFile where
  range : Text.Row
  sizes : List (String × UInt64)
  plain : range.Plain
  keys : ∀ size ∈ sizes, (kbRow size.1 [] 0).Plain
  unread : ∀ key ∈ rollupKeys, range.key ++ [':'] ≠ key.toList

namespace RollupFile

def rows (file : RollupFile) : List Text.Row :=
  file.range :: file.sizes.map fun size => kbRow size.1 (List.replicate (15 - size.1.length) ' ') size.2

/-- A size in bytes, zero where it is not listed. -/
def bytes (file : RollupFile) (key : String) : UInt64 :=
  ((file.sizes.find? (·.1 = key)).map Prod.snd).getD 0 * 1024

def rollup (file : RollupFile) : SmapsRollup where
  rss := file.bytes "Rss"
  anonymous := file.bytes "Anonymous"
  sharedClean := file.bytes "Shared_Clean"
  sharedDirty := file.bytes "Shared_Dirty"
  privateClean := file.bytes "Private_Clean"
  privateDirty := file.bytes "Private_Dirty"
  swap := file.bytes "Swap"

end RollupFile

/-- Numbers of pages: the size, the resident part, and more that is not read. -/
def statmText (size resident : UInt64) (further : List UInt64) : Text :=
  Text.ofInt size.toNat ++
    ((resident :: further).map fun n => Text.ofInt n.toNat).flatMap (' ' :: ·) ++ ['\n']

/-- The one line of a host with the v2 hierarchy only. -/
def cgroupText (path : Text) : Text := "0::".toList ++ path ++ ['\n']

section Rows
variable {key : String} {ids : List UInt32} {blanks : Text} {kb : UInt64}

theorem colon_notMem_ofInt (n : ℤ) : ':' ∉ Text.ofInt n := by
  intro h
  rcases Text.mem_ofInt h with h | h
  · exact absurd h (by decide)
  · exact absurd h (by decide)

theorem colon_notMem_idRow : ':' ∉ (idRow key ids).value := by
  intro h
  obtain ⟨id, -, h⟩ := List.mem_flatMap.mp h
  rcases List.mem_cons.mp h with h | h
  · exact absurd h (by decide)
  · exact colon_notMem_ofInt _ h

theorem colon_notMem_kbRow (h : ':' ∉ blanks) : ':' ∉ (kbRow key blanks kb).value := by
  have hpad : ':' ∉ List.replicate (8 - (Text.ofInt kb.toNat).length) ' ' :=
    fun hmem => absurd (List.eq_of_mem_replicate hmem) (by decide)
  exact List.not_mem_append h (List.not_mem_append (List.not_mem_append hpad (colon_notMem_ofInt _)) (by decide))

theorem words_idRow (id : UInt32) :
    ∃ others, Text.splitWhitespace (idRow key (id :: ids)).value = Text.ofInt id.toNat :: others := by
  have htab : ∀ c ∈ (ids.flatMap fun id => '\t' :: Text.ofInt id.toNat).head?, Text.isWhitespace c = true := by
    cases ids with
    | nil => simp
    | cons id ids => simp; rfl
  refine ⟨Text.splitWhitespace (ids.flatMap fun id => '\t' :: Text.ofInt id.toNat), ?_⟩
  rw [idRow, List.flatMap_cons, List.cons_append, Text.splitWhitespace_cons (by decide),
    Text.splitWhitespace_append (Text.isWord_ofInt _) htab]

theorem words_kbRow (h : ∀ c ∈ blanks, Text.isWhitespace c = true) :
    Text.splitWhitespace (kbRow key blanks kb).value = [Text.ofInt kb.toNat, "kB".toList] := by
  rw [kbRow, Text.splitWhitespace_blanks_append h, Text.splitWhitespace_padLeft_append,
    Text.splitWhitespace_append (Text.isWord_ofInt _) (by simp; rfl)]
  rfl

end Rows

section Lookup
variable {content : Text} {key : String}

theorem firstStatusValue_of_words {id : UInt32} {others : List Text} (path : String)
    (h : Text.wordsAfter key.toList (Text.lines content) = some (Text.ofInt id.toNat :: others)) :
    firstStatusValue content key path = .ok id := by
  obtain ⟨line, hline, hwords⟩ := Option.map_eq_some_iff.mp h
  rw [firstStatusValue, hline]
  dsimp only
  rw [hwords]
  dsimp only
  rw [Text.parseU32_ofInt]

theorem kbFieldBytes_of_words {kb : Option UInt64} {unit : List Text} (path : String)
    (h : Text.wordsAfter key.toList ((Text.lines content).map Text.trimStart) =
      kb.map fun kb => Text.ofInt kb.toNat :: unit) :
    kbFieldBytes content key path = .ok (kb.getD 0 * 1024) := by
  rw [Text.wordsAfter, List.find?_map, Option.map_map] at h
  rw [kbFieldBytes, readKbField]
  cases kb with
  | none =>
    have hnone : (Text.lines content).find? (key.toList <+: Text.trimStart ·) = none := Option.map_eq_none_iff.mp h
    rw [hnone]
    rfl
  | some kb =>
    obtain ⟨line, hline, hwords⟩ := Option.map_eq_some_iff.mp h
    rw [Function.comp_def] at hline
    rw [hline]
    dsimp only
    rw [Function.comp_apply] at hwords
    rw [hwords]
    dsimp only
    rw [Text.parseU64_ofInt]
    rfl

end Lookup

section Document
variable {rows : List Text.Row} (plain : ∀ row ∈ rows, row.Plain) {key field : String}
  (hfield : field.toList = key.toList ++ [':']) (hkey : ':' ∉ key.toList)
include plain hfield hkey

theorem firstStatusValue_document {id : UInt32} {others : List UInt32} (path : String)
    (hrow : rows.find? (·.key = key.toList) = some (idRow key (id :: others))) :
    firstStatusValue (Text.document rows) field path = .ok id := by
  obtain ⟨words, hwords⟩ : ∃ words, Text.splitWhitespace (idRow key (id :: others)).value =
      Text.ofInt id.toNat :: words := words_idRow id
  have hcolon : ∀ row ∈ rows.find? (·.key = key.toList), ':' ∉ row.value := by
    rw [hrow]
    rintro _ ⟨⟩
    exact colon_notMem_idRow
  have hlookup := Text.wordsAfter_document plain hkey hcolon
  rw [hrow, Option.map_some, hwords, ← hfield] at hlookup
  exact firstStatusValue_of_words path hlookup

theorem kbFieldBytes_document {kb : Option UInt64} {blanks : Text} (path : String)
    (hblanks : ∀ c ∈ blanks, Text.isWhitespace c = true)
    (hrow : rows.find? (·.key = key.toList) = kb.map (kbRow key blanks)) :
    kbFieldBytes (Text.document rows) field path = .ok (kb.getD 0 * 1024) := by
  have hcolon : ∀ row ∈ rows.find? (·.key = key.toList), ':' ∉ row.value := by
    rw [hrow]
    intro row hmem
    obtain ⟨kb, -, rfl⟩ := Option.map_eq_some_iff.mp hmem
    refine colon_notMem_kbRow fun hmem => ?_
    cases hblanks _ hmem
  have hlookup := Text.wordsAfter_document_trimmed plain hkey hcolon
  have hwords : (rows.find? (·.key = key.toList)).map (fun row => Text.splitWhitespace row.value) =
      kb.map fun kb => [Text.ofInt kb.toNat, "kB".toList] := by
    rw [hrow, Option.map_map]
    exact Option.map_congr fun kb _ => words_kbRow hblanks
  rw [hwords, ← hfield] at hlookup
  exact kbFieldBytes_of_words path hlookup

end Document

namespace StatusFile
variable (file : StatusFile) (path : String)

def text : Text := Text.document file.rows

theorem firstStatusValue_uid : firstStatusValue file.text "Uid:" path = .ok file.uid := by
  obtain ⟨others, hrow⟩ := file.uidRow
  exact firstStatusValue_document file.plain (by decide) (by decide) path hrow

theorem firstStatusValue_gid : firstStatusValue file.text "Gid:" path = .ok file.gid := by
  obtain ⟨others, hrow⟩ := file.gidRow
  exact firstStatusValue_document file.plain (by decide) (by decide) path hrow

theorem kbFieldBytes_swap : kbFieldBytes file.text "VmSwap:" path = .ok (file.swap.getD 0 * 1024) :=
  kbFieldBytes_document file.plain (by decide) (by decide) path (List.forall_mem_singleton.mpr rfl) file.swapRow

end StatusFile

namespace RollupFile
variable (file : RollupFile)

def text : Text := Text.document file.rows

theorem rows_plain : ∀ row ∈ file.rows, row.Plain := by
  refine List.forall_mem_cons.mpr ⟨file.plain, List.forall_mem_map.mpr fun size hsize => ?_⟩
  obtain ⟨hcolon, hkeyLine, -, hvisible⟩ := file.keys size hsize
  refine ⟨hcolon, hkeyLine, ?_, hvisible⟩
  have hblank (n : ℕ) : '\n' ∉ List.replicate n ' ' := fun hmem => absurd (List.eq_of_mem_replicate hmem) (by decide)
  have hdigits : '\n' ∉ Text.ofInt size.2.toNat := fun hmem => by cases (Text.isWord_ofInt _).2 _ hmem
  exact List.not_mem_append (hblank _)
    (List.not_mem_append (List.not_mem_append (hblank _) hdigits) (by decide))

theorem find?_rows (key : String) (hrange : file.range.key ≠ key.toList) :
    file.rows.find? (·.key = key.toList) =
      ((file.sizes.find? (·.1 = key)).map Prod.snd).map (kbRow key (List.replicate (15 - key.length) ' ')) := by
  rw [rows, List.find?_cons_of_neg (by simpa using hrange), List.find?_map, Option.map_map]
  have hkey (size : String × UInt64) : (size.1.toList = key.toList) = (size.1 = key) :=
    propext String.toList_inj
  simp only [Function.comp_def, kbRow, hkey]
  cases hfind : file.sizes.find? (·.1 = key) with
  | none => rfl
  | some size =>
    obtain rfl : size.1 = key := by simpa using List.find?_some hfind
    rfl

/-- Each key that is looked up has its size, and no other row stands for it. -/
theorem kbFieldBytes_rollup (key field path : String) (hmem : field ∈ rollupKeys)
    (hfield : field.toList = key.toList ++ [':']) (hcolon : ':' ∉ key.toList) :
    kbFieldBytes file.text field path = .ok (file.bytes key) := by
  have hrange : file.range.key ≠ key.toList := fun heq => file.unread field hmem (heq ▸ hfield.symm)
  refine kbFieldBytes_document file.rows_plain hfield hcolon path ?_ (file.find?_rows key hrange)
  intro c hc
  obtain rfl := List.eq_of_mem_replicate hc
  decide

theorem parseSmapsRollup_text (path : String) : parseSmapsRollup file.text path = .ok file.rollup := by
  have hrss := file.kbFieldBytes_rollup "Rss" "Rss:" path (by decide) (by decide) (by decide)
  have hanonymous := file.kbFieldBytes_rollup "Anonymous" "Anonymous:" path (by decide) (by decide) (by decide)
  have hsharedClean := file.kbFieldBytes_rollup "Shared_Clean" "Shared_Clean:" path (by decide) (by decide) (by decide)
  have hsharedDirty := file.kbFieldBytes_rollup "Shared_Dirty" "Shared_Dirty:" path (by decide) (by decide) (by decide)
  have hprivateClean := file.kbFieldBytes_rollup "Private_Clean" "Private_Clean:" path (by decide) (by decide)
    (by decide)
  have hprivateDirty := file.kbFieldBytes_rollup "Private_Dirty" "Private_Dirty:" path (by decide) (by decide)
    (by decide)
  have hswap := file.kbFieldBytes_rollup "Swap" "Swap:" path (by decide) (by decide) (by decide)
  simp only [parseSmapsRollup, hrss, hanonymous, hsharedClean, hsharedDirty, hprivateClean, hprivateDirty, hswap,
    ok_bind]
  rfl

end RollupFile

theorem parseStatm_text (size resident : UInt64) (further : List UInt64) (path : String) (pageSize : UInt64) :
    parseStatm (statmText size resident further) path pageSize = .ok (size * pageSize, resident * pageSize) := by
  have hwords : ∀ w ∈ (resident :: further).map (fun n => Text.ofInt n.toNat),
      w ≠ [] ∧ ∀ c ∈ w, Text.isWhitespace c = false :=
    List.forall_mem_map.mpr fun n _ => Text.isWord_ofInt _
  have hsize : Text.IsWord (Text.ofInt size.toNat) := Text.isWord_ofInt _
  rw [parseStatm, statmText, Text.splitWhitespace_concat (by decide),
    Text.splitWhitespace_words _ hwords _ hsize.1 hsize.2]
  simp [nextU64, Text.parseU64_ofInt]

theorem parseCgroupLines_text {path : Text} (hline : '\n' ∉ path) (hend : path.getLast? ≠ some '\r') :
    parseCgroupLines (cgroupText path) = [{ hierarchyId := 0, controllers := [], path }] := by
  have hrow : '\n' ∉ "0::".toList ++ path := List.not_mem_append (by decide) hline
  have hlast : ("0::".toList ++ path).getLast? ≠ some '\r' := by
    cases path with
    | nil => decide
    | cons c path => rwa [List.getLast?_append_of_ne_nil _ (List.cons_ne_nil c path)]
  have hlines : Text.lines (cgroupText path) = ["0::".toList ++ path] := by
    have := Text.lines_terminated (List.forall_mem_singleton.mpr hrow) (List.forall_mem_singleton.mpr hlast)
    simpa [cgroupText] using this
  have hsplit : Text.splitn 3 ':' ("0::".toList ++ path) = [['0'], [], path] := rfl
  rw [parseCgroupLines, hlines, List.filterMap_cons, hsplit]
  rfl

end ProcessExplorer.Telemetry.Linux
