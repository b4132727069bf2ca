import Mathlib.Data.Option.Basic
import ProcessExplorer.Library.Words

/-! Files of rows "key:value", one a line, and how line-based parsers look a key up: the first line that starts
with the key and a colon, and the words after it. -/
namespace ProcessExplorer.Library.Text

/-- A line as all before its first colon, and all after it. -/
structure Row where
  key : Text
  value : Text
  deriving DecidableEq

namespace Row

def line (row : Row) : Text := row.key ++ ':' :: row.value

structure Plain (row : Row) : Prop where
  colon : ':' ∉ row.key
  keyLine : '\n' ∉ row.key
  valueLine : '\n' ∉ row.value
  visible : ∀ c ∈ row.key.head?, isWhitespace c = false

theorem plain_iff (row : Row) : (':' ∉ row.key ∧ '\n' ∉ row.key ∧ '\n' ∉ row.value ∧
    row.key.head?.all (fun c => !isWhitespace c) = true) ↔ row.Plain := by
  have hfirst : row.key.head?.all (fun c => !isWhitespace c) = true ↔ ∀ c ∈ row.key.head?, isWhitespace c = false := by
    cases row.key.head? <;> simp
  rw [hfirst]
  exact ⟨fun ⟨hcolon, hkey, hvalue, h⟩ => ⟨hcolon, hkey, hvalue, h⟩, fun h => ⟨h.colon, h.keyLine, h.valueLine, h.visible⟩⟩

instance : DecidablePred Plain := fun row => decidable_of_iff _ row.plain_iff

end Row

/-- The rows as a file, each ended by a line feed. -/
def document (rows : List Row) : Text := (rows.map Row.line).flatMap (· ++ ['\n'])

/-- The words after a key on the first of the lines that starts with it. -/
def wordsAfter (key : Text) (lines : List Text) : Option (List Text) :=
  (lines.find? (key <+: ·)).map fun line => splitWhitespace (trimStartMatches key line)

example : wordsAfter "Gid:".toList (lines "Uid:\t7\t8\nGid:\t9\n".toList) = some [['9']] := by decide

/-- A line that shows a row: only white space at the end of the value may be missing. -/
def Shows (line : Text) (row : Row) : Prop :=
  ∃ value, line = row.key ++ ':' :: value ∧ value <+: row.value ∧ splitWhitespace value = splitWhitespace row.value

theorem forall₂_shows {rows : List Row} (h : ∀ row ∈ rows, row.Plain) :
    List.Forall₂ Shows (lines (document rows)) rows := by
  have hnewline : ∀ line ∈ rows.map Row.line, '\n' ∉ line := by
    intro line hline
    obtain ⟨row, hrow, rfl⟩ := List.mem_map.mp hline
    exact List.not_mem_append (h row hrow).keyLine
      (List.not_mem_cons_of_ne_of_not_mem (by decide) (h row hrow).valueLine)
  refine (List.forall₂_map_right_iff.mp (forall₂_lines_terminated hnewline)).imp ?_
  rintro line row (rfl | hreturn)
  · exact ⟨row.value, rfl, List.prefix_refl _, rfl⟩
  · -- The carriage return ends the value, for the row goes on after its colon.
    have hne : row.value ≠ [] := by
      intro hnil
      rw [Row.line, hnil] at hreturn
      exact absurd (List.append_inj' hreturn rfl).2 (by decide)
    obtain ⟨value, c, hvalue⟩ := (List.eq_nil_or_concat' row.value).resolve_left hne
    have hparts : line ++ ['\r'] = (row.key ++ ':' :: value) ++ [c] := by
      rw [hreturn, Row.line, hvalue]
      simp
    obtain ⟨rfl, hc⟩ := List.append_inj' hparts rfl
    obtain rfl : '\r' = c := (List.cons.inj hc).1
    exact ⟨value, rfl, hvalue ▸ List.prefix_append _ _, by rw [hvalue, splitWhitespace_concat (by decide)]⟩

/-- A line starts with a key and a colon exactly when it shows a row of this key. -/
theorem Shows.prefix_iff {line key : Text} {row : Row} (h : Shows line row) (hrow : ':' ∉ row.key) (hkey : ':' ∉ key) :
    key ++ [':'] <+: line ↔ row.key = key := by
  obtain ⟨value, rfl, -, -⟩ := h
  constructor
  · rintro ⟨rest, hrest⟩
    have hsplit : splitOnce ':' (key ++ ':' :: rest) = splitOnce ':' (row.key ++ ':' :: value) := by
      rw [← hrest]
      simp
    rw [splitOnce_append_cons hkey, splitOnce_append_cons hrow] at hsplit
    exact ((Prod.mk.inj (Option.some.inj hsplit)).1).symm
  · rintro rfl
    exact ⟨value, by simp⟩

theorem Shows.trimStart {line : Text} {row : Row} (h : Shows line row)
    (hvisible : ∀ c ∈ row.key.head?, isWhitespace c = false) : Text.trimStart line = line := by
  obtain ⟨value, rfl, -, -⟩ := h
  cases hkey : row.key with
  | nil => rfl
  | cons c rest =>
    have hc : isWhitespace c = false := hvisible c (by rw [hkey]; rfl)
    rw [List.cons_append, Text.trimStart, List.dropWhile_cons_of_neg (by simp [hc])]

theorem map_trimStart_of_shows {lines : List Text} {rows : List Row} (h : List.Forall₂ Shows lines rows)
    (hvisible : ∀ row ∈ rows, ∀ c ∈ row.key.head?, isWhitespace c = false) : lines.map Text.trimStart = lines := by
  induction h with
  | nil => rfl
  | cons hshows _ ih =>
    obtain ⟨hrow, hrows⟩ := List.forall_mem_cons.mp hvisible
    rw [List.map_cons, hshows.trimStart hrow, ih hrows]

/-- What is left of a line is the value, unless the key stands there once more. -/
theorem Shows.words {line : Text} {row : Row} (h : Shows line row) (hcolon : ':' ∉ row.value) :
    splitWhitespace (trimStartMatches (row.key ++ [':']) line) = splitWhitespace row.value := by
  obtain ⟨value, rfl, hprefix, hwords⟩ := h
  have hnot : ¬ row.key ++ [':'] <+: value := fun hkey =>
    hcolon ((hkey.trans hprefix).subset (List.mem_append_right _ (List.mem_singleton_self ':')))
  have hline : row.key ++ ':' :: value = (row.key ++ [':']) ++ value := List.append_cons ..
  rw [← hwords, hline, trimStartMatches_append (by simp) hnot]

/-- A key is looked up among the lines as it is among the rows. -/
theorem wordsAfter_of_shows {lines : List Text} {rows : List Row} (h : List.Forall₂ Shows lines rows)
    (hrows : ∀ row ∈ rows, ':' ∉ row.key) {key : Text} (hkey : ':' ∉ key)
    (hvalue : ∀ row ∈ rows.find? (·.key = key), ':' ∉ row.value) :
    wordsAfter (key ++ [':']) lines =
      (rows.find? (·.key = key)).map fun row => splitWhitespace row.value := by
  rw [wordsAfter]
  induction h with
  | nil => rfl
  | @cons line row lines rows hshows _ ih =>
    obtain ⟨hrow, hrows⟩ := List.forall_mem_cons.mp hrows
    have hiff := hshows.prefix_iff hrow hkey
    by_cases hk : row.key = key
    · have hfound : (row :: rows).find? (·.key = key) = some row := List.find?_cons_of_pos (by simpa using hk)
      rw [List.find?_cons_of_pos (by simpa using hiff.mpr hk), hfound, Option.map_some, Option.map_some, ← hk,
        hshows.words (hvalue row hfound)]
    · have hskipped : (row :: rows).find? (·.key = key) = rows.find? (·.key = key) :=
        List.find?_cons_of_neg (by simpa using hk)
      rw [hskipped] at hvalue ⊢
      rw [List.find?_cons_of_neg (by simpa using mt hiff.mp hk)]
      exact ih hrows hvalue

section Document
variable {rows : List Row} (h : ∀ row ∈ rows, row.Plain) {key : Text} (hkey : ':' ∉ key)
  (hvalue : ∀ row ∈ rows.find? (·.key = key), ':' ∉ row.value)
include h hkey hvalue

theorem wordsAfter_document : wordsAfter (key ++ [':']) (lines (document rows)) =
    (rows.find? (·.key = key)).map fun row => splitWhitespace row.value :=
  wordsAfter_of_shows (forall₂_shows h) (fun row hrow => (h row hrow).colon) hkey hvalue

/-- A parser that trims its lines first finds the same words. -/
theorem wordsAfter_document_trimmed : wordsAfter (key ++ [':']) ((lines (document rows)).map Text.trimStart) =
    (rows.find? (·.key = key)).map fun row => splitWhitespace row.value := by
  rw [map_trimStart_of_shows (forall₂_shows h) fun row hrow => (h row hrow).visible]
  exact wordsAfter_document h hkey hvalue

end Document

end ProcessExplorer.Library.Text
