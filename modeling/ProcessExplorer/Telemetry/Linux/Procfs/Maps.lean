import Mathlib.Data.UInt
import ProcessExplorer.Library.Tally
import ProcessExplorer.Library.Utf8
import ProcessExplorer.Library.Words
import ProcessExplorer.Telemetry.Linux.Procfs.Memory

/-! /proc/[pid]/maps: the mapped files, one entry a path. A row is split at white space and the path put
together again with single blanks. -/
namespace ProcessExplorer.Telemetry.Linux
open Library Model

structure MappedFile where
  path : String
  sizeBytes : UInt64
  deriving DecidableEq, Repr

/-- The words of a row from the sixth on, as one path. -/
def joinBlanks (words : List Text) : Text := [' '].intercalate words

/-- One row, split into words; one without a path or with a pseudo-path adds nothing. -/
def addMapping (path : String) (found : List Text × HashMap Text UInt64) (rest : List Text) :
    Result (List Text × HashMap Text UInt64) :=
  match rest.head?, rest[5]? with
  | some range, some candidate =>
    if candidate.head? ≠ some '/' then pure found else do
      let pathField := joinBlanks (rest.drop 5)
      let some (start, stop) := Text.splitOnce '-' range
        | throw (parseErr path ("malformed address range '" ++ String.ofList range ++ "'"))
      let some low := Text.parseHexU64 start
        | throw (parseErr path ("bad range start '" ++ String.ofList start ++ "'"))
      let some high := Text.parseHexU64 stop
        | throw (parseErr path ("bad range end '" ++ String.ofList stop ++ "'"))
      pure (tally found (pathField, saturatingSub high low))
  | _, _ => pure found

def readMappedFiles (root : String) (pid : Pid) : Procfs (List MappedFile) := do
  let path := procPath root pid "maps"
  let content ← readToString path
  let (order, sizes) ← Procfs.liftExcept ((Text.lines content).foldlM
    (fun found line => addMapping path found (Text.splitWhitespace line)) ([], ∅))
  pure (order.map fun p => { path := String.ofList p, sizeBytes := (sizes.lookup p).getD 0 })

/-- What the kernel shows as the name of a mapping. -/
inductive MapName where
  | unnamed
  | pseudo (label : Text)
  | file (rest : Text)

def MapName.text : MapName → Text
  | .unnamed => []
  | .pseudo label => '[' :: (label ++ [']'])
  | .file rest => '/' :: rest

structure Mapping where
  start : UInt64
  stop : UInt64
  readable : Bool
  writable : Bool
  executable : Bool
  shared : Bool
  offset : UInt64
  major : UInt32
  minor : UInt32
  inode : UInt64
  name : MapName
  start_lt : start < stop
  oneLine : '\n' ∉ name.text

namespace Mapping
variable (m : Mapping)

def range : Text := Text.paddedHex 8 m.start.toNat ++ '-' :: Text.paddedHex 8 m.stop.toNat

def perms : Text :=
  [if m.readable then 'r' else '-', if m.writable then 'w' else '-', if m.executable then 'x' else '-',
    if m.shared then 's' else 'p']

def dev : Text := Text.paddedHex 2 m.major.toNat ++ ':' :: Text.paddedHex 2 m.minor.toNat

def words : List Text := [m.range, m.perms, Text.paddedHex 8 m.offset.toNat, m.dev, Text.ofInt m.inode.toNat]

/-- The columns of a row, each with a blank after it. -/
def columns : Text := m.words.flatMap (· ++ [' '])

/-- A name begins in column 73, or one blank after longer columns. -/
def row : Text :=
  m.columns ++ if m.name.text = [] then []
    else List.replicate (72 - m.columns.length) ' ' ++ ' ' :: m.name.text

def path? : Option Text :=
  match m.name with
  | .file rest => some ('/' :: rest)
  | _ => none

def size : ℕ := m.stop.toNat - m.start.toNat

end Mapping

/-- The mappings of a process do not overlap. -/
structure AddressSpace where
  mappings : List Mapping
  disjoint : mappings.Pairwise fun a b => a.stop ≤ b.start ∨ b.stop ≤ a.start

namespace AddressSpace
variable (space : AddressSpace)

def file : ByteArray := (Text.utf8 ((space.mappings.map Mapping.row).flatMap (· ++ ['\n']))).toByteArray

/-- The mapped paths with their sizes, segment by segment. -/
def segments : List (Text × ℕ) := space.mappings.filterMap fun m => m.path?.map (·, m.size)

/-- Every mapped path once, in order of first appearance, with the size of all its segments. -/
def files : List (Text × ℕ) := totals space.segments

end AddressSpace

example : Mapping.row { start := 0x55f8f1a00000, stop := 0x55f8f1a05000, readable := true, writable := false,
                        executable := false, shared := false, offset := 0, major := 8, minor := 1
                        inode := 1234567, name := .file "usr/bin/sherd".toList, start_lt := by decide
                        oneLine := by decide } =
    "55f8f1a00000-55f8f1a05000 r--p 00000000 08:01 1234567                    /usr/bin/sherd".toList := by
  decide +kernel

section Spelling

/-- The way the words of a path are put together again. -/
def respell (path : Text) : Text := joinBlanks (Text.splitWhitespace path)

/-- Words with a single blank between one and the next. -/
def SingleBlanks (t : Text) : Prop := ∃ words, (∀ w ∈ words, Text.IsWord w) ∧ t = joinBlanks words

theorem joinBlanks_cons (first : Text) (words : List Text) :
    joinBlanks (first :: words) = first ++ words.flatMap (' ' :: ·) := by
  induction words generalizing first with
  | nil => simp [joinBlanks]
  | cons w words ih =>
    rw [joinBlanks, List.intercalate_cons_cons, ← joinBlanks, ih]
    simp

theorem splitWhitespace_joinBlanks {words : List Text} (h : ∀ w ∈ words, Text.IsWord w) :
    Text.splitWhitespace (joinBlanks words) = words := by
  cases words with
  | nil => rfl
  | cons first words =>
    obtain ⟨hfirst, hwords⟩ := List.forall_mem_cons.mp h
    rw [joinBlanks_cons, Text.splitWhitespace_words words hwords first hfirst.1 hfirst.2]

theorem respell_respell (path : Text) : respell (respell path) = respell path := by
  rw [respell, respell, splitWhitespace_joinBlanks fun _ => Text.mem_splitWhitespace]

theorem singleBlanks_iff (path : Text) : SingleBlanks path ↔ respell path = path := by
  constructor
  · rintro ⟨words, hwords, rfl⟩
    rw [respell, splitWhitespace_joinBlanks hwords]
  · intro h
    exact ⟨Text.splitWhitespace path, fun _ => Text.mem_splitWhitespace, h.symm⟩

end Spelling

section Row
variable (m : Mapping)

theorem isWord_of_mem_words : ∀ w ∈ m.words, Text.IsWord w := by
  have hpair (width n k : ℕ) {c : Char} (hc : Text.isWhitespace c = false) :
      Text.IsWord (Text.paddedHex width n ++ c :: Text.paddedHex width k) :=
    (Text.isWord_paddedHex width n).append ((Text.isWord_paddedHex width k).cons hc)
  have hperms : ∀ c ∈ m.perms, Text.isWhitespace c = false := by
    simp only [Mapping.perms, List.forall_mem_cons]
    refine ⟨?_, ?_, ?_, ?_, List.forall_mem_nil _⟩ <;> split <;> decide
  simp only [Mapping.words, List.forall_mem_cons]
  exact ⟨hpair _ _ _ (by decide), ⟨by simp [Mapping.perms], hperms⟩, Text.isWord_paddedHex _ _,
    hpair _ _ _ (by decide), Text.isWord_ofInt _, List.forall_mem_nil _⟩

theorem splitWhitespace_row : Text.splitWhitespace m.row = m.words ++ Text.splitWhitespace m.name.text := by
  rw [Mapping.row, Mapping.columns, Text.splitWhitespace_columns (isWord_of_mem_words m)]
  congr 1
  split
  · rename_i h
    rw [h]
  · rw [Text.splitWhitespace_replicate_append, Text.splitWhitespace_cons (by decide)]

/-- A row is one line: only the name could hold a line feed. -/
theorem newline_notMem_row : '\n' ∉ m.row := by
  rw [Mapping.row, List.mem_append, not_or]
  refine ⟨Text.newline_notMem_columns (isWord_of_mem_words m), ?_⟩
  split
  · exact List.not_mem_nil
  · simp only [List.mem_append, List.mem_cons, not_or]
    exact ⟨fun h => absurd (List.eq_of_mem_replicate h) (by decide), by decide, m.oneLine⟩

theorem splitOnce_range : Text.splitOnce '-' m.range =
    some (Text.paddedHex 8 m.start.toNat, Text.paddedHex 8 m.stop.toNat) := by
  refine Text.splitOnce_append_cons fun h => ?_
  obtain ⟨d, hd⟩ := Text.hexValue_of_mem_paddedHex h
  cases hd

/-- A row adds the size of its segment to its path, as it is spelled again; other rows add nothing. -/
theorem addMapping_row (path : String) (found : List Text × HashMap Text UInt64) :
    addMapping path found (Text.splitWhitespace m.row) =
      .ok (m.path?.elim found fun p => tally found (respell p, m.stop - m.start)) := by
  have hsize : saturatingSub m.stop m.start = m.stop - m.start := if_pos (UInt64.le_of_lt m.start_lt)
  rw [splitWhitespace_row]
  cases hname : m.name with
  | unnamed =>
    simp [addMapping, Mapping.words, Mapping.path?, hname, MapName.text, Text.splitWhitespace]
    rfl
  | pseudo label =>
    obtain ⟨w, words, hwords⟩ := Text.splitWhitespace_cons_of_not (c := '[') (by decide) (label ++ [']'])
    simp [addMapping, Mapping.words, Mapping.path?, hname, MapName.text, hwords]
    rfl
  | file rest =>
    obtain ⟨w, words, hwords⟩ := Text.splitWhitespace_cons_of_not (c := '/') (by decide) rest
    simp [addMapping, Mapping.words, Mapping.path?, hname, MapName.text, hwords, splitOnce_range,
      Text.parseHexU64_paddedHex, hsize, respell]
    rfl

end Row
/-- The segments of some mappings as they are added up. -/
def spelled (segments : List (Text × ℕ)) : List (Text × UInt64) :=
  segments.map fun segment => (respell segment.1, UInt64.ofNat segment.2)

theorem foldlM_addMapping (path : String) (mappings : List Mapping) (found : List Text × HashMap Text UInt64) :
    (mappings.map fun m => Text.splitWhitespace m.row).foldlM (addMapping path) found =
      .ok ((spelled (mappings.filterMap fun m => m.path?.map (·, m.size))).foldl tally found) := by
  induction mappings generalizing found with
  | nil => rfl
  | cons m mappings ih =>
    have hsize : m.stop - m.start = UInt64.ofNat m.size := by
      apply UInt64.toNat_inj.mp
      have hle := UInt64.le_of_lt m.start_lt
      have hlt : m.size < UInt64.size := lt_of_le_of_lt (Nat.sub_le _ _) m.stop.toNat_lt
      rw [UInt64.toNat_sub_of_le _ _ hle, UInt64.toNat_ofNat_of_lt' hlt, Mapping.size]
    rw [List.map_cons, List.foldlM_cons, addMapping_row, ok_bind, ih]
    cases hpath : m.path? with
    | none => simp [hpath]
    | some p => simp [hpath, spelled, hsize]

section Read
variable (fs : FileSystem) (root : String) (pid : Pid) (space : AddressSpace)

/-- What is read: one entry for each path as it is spelled again, with what its segments add up to. -/
theorem resultOn_readMappedFiles :
    ∃ files, (readMappedFiles root pid).resultOn
        (fs.withFile (procPath root pid "maps") (.ok space.file)) = .ok files ∧
      files.map (fun f => (f.path.toList, f.sizeBytes)) = totals (spelled space.segments) := by
  have hrows : ∀ row ∈ space.mappings.map Mapping.row, '\n' ∉ row := by
    intro row hrow
    obtain ⟨m, -, rfl⟩ := List.mem_map.mp hrow
    exact newline_notMem_row m
  have htext : (fs.withFile (procPath root pid "maps") (.ok space.file)).text (procPath root pid "maps") =
      .ok ((space.mappings.map Mapping.row).flatMap (· ++ ['\n'])) := by
    rw [FileSystem.text_withFile, if_pos rfl, AddressSpace.file, decoded, Text.fromUtf8_utf8]
  have hwords (line : Text) : Text.splitWhitespace (line ++ ['\r']) = Text.splitWhitespace line :=
    Text.splitWhitespace_concat (by decide) line
  have hfold : (Text.lines ((space.mappings.map Mapping.row).flatMap (· ++ ['\n']))).foldlM
      (fun found line => addMapping (procPath root pid "maps") found (Text.splitWhitespace line)) ([], ∅) =
        .ok ((spelled space.segments).foldl tally ([], ∅)) := by
    rw [← List.foldlM_map, Text.map_lines_terminated hwords hrows, List.map_map]
    exact foldlM_addMapping _ space.mappings _
  obtain ⟨horder, hlookup⟩ := foldl_tally (spelled space.segments)
  rw [readMappedFiles, Procfs.resultOn_bind, resultOn_readToString, htext]
  change ∃ files, Procfs.resultOn _ (Procfs.liftExcept _ >>= _) = _ ∧ _
  rw [hfold]
  refine ⟨_, rfl, ?_⟩
  rw [List.map_map, horder, totals]
  apply List.map_congr_left
  intro p hp
  rw [Function.comp_apply, hlookup, if_pos (mem_keys.mp hp), String.toList_ofList]
  rfl

end Read

namespace AddressSpace
variable (space : AddressSpace)

/-- No path has more bytes mapped than there are addresses. -/
theorem total_segments_lt (p : Text) : total space.segments p < 2 ^ 64 := by
  have htotal (mappings : List Mapping) : total (mappings.filterMap fun m => m.path?.map (·, m.size)) p =
      ((mappings.filter fun m => m.path? = some p).map Mapping.size).sum := by
    induction mappings with
    | nil => rfl
    | cons m mappings ih =>
      cases hpath : m.path? with
      | none => simpa [hpath] using ih
      | some q =>
        by_cases hq : q = p
        · simpa [hpath, hq, total] using ih
        · simpa [hpath, hq, total] using ih
  have hbound : ∀ i ∈ (space.mappings.filter fun m => m.path? = some p).map
      fun m => (m.start.toNat, m.stop.toNat), i.2 ≤ 2 ^ 64 - 1 := by
    intro i hi
    obtain ⟨m, -, rfl⟩ := List.mem_map.mp hi
    exact Nat.le_pred_of_lt m.stop.toNat_lt
  have hsum := sum_length_le hbound (List.pairwise_map.mpr ((space.disjoint.filter _).imp fun h => h))
  rw [List.map_map] at hsum
  rw [segments, htotal]
  exact Nat.lt_of_le_of_lt hsum (by decide)

/-- Paths that are spelled as they were keep their order and their sizes. -/
theorem totals_spelled (h : ∀ s ∈ space.segments, respell s.1 = s.1) :
    (totals (spelled space.segments)).map (fun f => (f.1, f.2.toNat)) = space.files := by
  have hspelled : spelled space.segments = space.segments.map fun s => (s.1, UInt64.ofNat s.2) :=
    List.map_congr_left fun s hs => by rw [h s hs]
  have hkeys : keys (spelled space.segments) = keys space.segments := by
    rw [keys, hspelled, List.map_map]
    rfl
  rw [totals, hkeys, List.map_map, files, totals]
  apply List.map_congr_left
  intro p hp
  let ofNat : ℕ →+ UInt64 := ⟨⟨UInt64.ofNat, rfl⟩, UInt64.ofNat_add⟩
  have htotal : total (spelled space.segments) p = UInt64.ofNat (total space.segments p) := by
    rw [hspelled]
    exact total_map ofNat space.segments p
  rw [Function.comp_apply, htotal, UInt64.toNat_ofNat_of_lt' (space.total_segments_lt p)]

/-- A path that changes when it is spelled again is not among those that are read. -/
theorem respell_of_files (files : List MappedFile)
    (hread : files.map (fun f => (f.path.toList, f.sizeBytes)) = totals (spelled space.segments))
    (hfiles : files.map (fun f => (f.path.toList, f.sizeBytes.toNat)) = space.files) :
    ∀ s ∈ space.segments, respell s.1 = s.1 := by
  intro s hs
  have hkeys : keys (spelled space.segments) = keys space.segments := by
    have hread' := congrArg (List.map Prod.fst) hread
    have hfiles' := congrArg (List.map Prod.fst) hfiles
    simp only [totals, AddressSpace.files, List.map_map, Function.comp_def, List.map_id'] at hread' hfiles'
    exact hread'.symm.trans hfiles'
  have hmem : s.1 ∈ keys (spelled space.segments) := hkeys ▸ mem_keys.mpr (List.mem_map_of_mem hs)
  obtain ⟨s', hs', heq⟩ := List.mem_map.mp (mem_keys.mp hmem)
  obtain ⟨segment, -, rfl⟩ := List.mem_map.mp hs'
  rw [← heq]
  exact respell_respell segment.1

end AddressSpace

/-- The files are read exactly, sizes included, when every mapped path is words with single blanks between. -/
theorem readMappedFiles_rendered_iff (fs : FileSystem) (root : String) (pid : Pid) (space : AddressSpace) :
    (∃ files, (readMappedFiles root pid).resultOn
        (fs.withFile (procPath root pid "maps") (.ok space.file)) = .ok files ∧
      files.map (fun f => (f.path.toList, f.sizeBytes.toNat)) = space.files) ↔
      ∀ m ∈ space.mappings, ∀ p ∈ m.path?, SingleBlanks p := by
  have hsegments : (∀ m ∈ space.mappings, ∀ p ∈ m.path?, SingleBlanks p) ↔
      ∀ s ∈ space.segments, respell s.1 = s.1 := by
    simp only [singleBlanks_iff, AddressSpace.segments, List.mem_filterMap, Option.map_eq_some_iff]
    constructor
    · rintro h _ ⟨m, hm, p, hp, rfl⟩
      exact h m hm p hp
    · exact fun h m hm p hp => h _ ⟨m, hm, p, hp, rfl⟩
  obtain ⟨files, hread, hspelled⟩ := resultOn_readMappedFiles fs root pid space
  rw [hsegments]
  constructor
  · rintro ⟨files', hread', hfiles⟩
    obtain rfl := Except.ok.inj (hread.symm.trans hread')
    exact space.respell_of_files files hspelled hfiles
  · intro h
    refine ⟨files, hread, ?_⟩
    rw [← space.totals_spelled h, ← hspelled, List.map_map]
    rfl

/-- One page of a file. -/
private def pageOf (start : UInt64) (rest : String) (hstart : start < start + 4096)
    (hrest : '\n' ∉ MapName.text (.file rest.toList)) : Mapping where
  start := start
  stop := start + 4096
  readable := true
  writable := false
  executable := false
  shared := false
  offset := 0
  major := 8
  minor := 1
  inode := 77
  name := .file rest.toList
  start_lt := hstart
  oneLine := hrest

/-- Two files whose names differ in a blank. -/
def twoNotes : AddressSpace where
  mappings := [pageOf 0x1000 "tmp/my notes" (by decide) (by decide),
    pageOf 0x2000 "tmp/my  notes" (by decide) (by decide)]
  disjoint := by decide

/-- They are read as one file of two pages. -/
theorem readMappedFiles_merges_notes :
    (readMappedFiles "/proc" 4242).resultOn
        (FileSystem.withFile (.holding .empty) "/proc/4242/maps" (.ok twoNotes.file)) =
      .ok [{ path := "/tmp/my notes", sizeBytes := 8192 }] ∧
    twoNotes.files = [("/tmp/my notes".toList, 4096), ("/tmp/my  notes".toList, 4096)] := by
  constructor
  · decide +kernel
  · decide +kernel

end ProcessExplorer.Telemetry.Linux
