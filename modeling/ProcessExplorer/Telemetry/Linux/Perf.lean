import Mathlib.Data.List.Forall2
import ProcessExplorer.Library.Decimal
import ProcessExplorer.Library.Words
import ProcessExplorer.Telemetry.Linux.Procfs.Common

/-! The report of perf: one row a symbol, hottest first. The columns before the marker are free text, and a
bracket in one of them is taken for the marker. -/
namespace ProcessExplorer.Telemetry.Linux
open Library Model

structure HotFunction where
  symbol : String
  «module» : String
  overheadPercent : Double
  deriving DecidableEq

/-- One data row, trimmed. -/
def hotFunction (line : Text) : Option HotFunction := do
  let (overhead, rest) ← Text.splitOnce '%' line
  let overheadPercent ← Text.parseF64 (Text.trim overhead)
  let rest := Text.trimStart rest
  let markerStart ← rest.idxOf? '['
  let symbolPart := Text.trim (rest.drop markerStart)
  let space := if "[k]".toList <+: symbolPart then "kernel" else "user"
  let symbol := ((Text.splitWhitespace symbolPart)[1]?).getD []
  if symbol = [] then none
  else some { symbol := String.ofList symbol, «module» := space, overheadPercent := overheadPercent }

/-- One line: the functions found so far, and how many rows were none. -/
def addReportLine (found : List HotFunction × UInt32) (line : Text) : List HotFunction × UInt32 :=
  let line := Text.trim line
  if line = [] ∨ line.head? = some '#' then found
  else match hotFunction line with
    | some hot => (found.1 ++ [hot], found.2)
    | none => (found.1, found.2 + 1)

def parsePerfReport (stdout : Text) (path : String) : Result (List HotFunction) :=
  let (hotFunctions, unparsedDataLines) := (Text.lines stdout).foldl addReportLine ([], 0)
  if hotFunctions = [] ∧ 0 < unparsedDataLines then
    .error (parseErr path "no recognizable overhead/symbol rows in perf report output")
  else .ok hotFunctions

/-- The columns between the sample count and the marker. -/
inductive PerfLayout where
  | symbolOnly
  | withObject (command sharedObject : Text)

def PerfLayout.columns : PerfLayout → List Text
  | .symbolOnly => []
  | .withObject command sharedObject => [command, sharedObject]

def marker (kernel : Bool) : Text := if kernel then "[k]".toList else "[.]".toList

/-- A data row, with any white space between its words. -/
structure PerfRow where
  line : Text
  overhead : Decimal
  samples : ℕ
  layout : PerfLayout
  kernel : Bool
  symbol : Text
  placeholders : ℕ
  words_line : Text.splitWhitespace line = (overhead.text ++ ['%']) :: Text.ofInt samples ::
    (layout.columns ++ marker kernel :: symbol :: List.replicate placeholders ['-'])

inductive ReportLine where
  | comment (line : Text) (hash : (Text.trim line).head? = some '#')
  | blank (line : Text) (white : ∀ c ∈ line, Text.isWhitespace c = true)
  | data (row : PerfRow)

def ReportLine.line : ReportLine → Text
  | .comment line _ => line
  | .blank line _ => line
  | .data row => row.line

def ReportLine.row? : ReportLine → Option PerfRow
  | .data row => some row
  | _ => none

/-- A report body of these three kinds of lines. -/
structure PerfReport where
  body : Text
  lines : List ReportLine
  lines_body : Text.lines body = lines.map ReportLine.line

def PerfReport.rows (report : PerfReport) : List PerfRow := report.lines.filterMap ReportLine.row?

def fromBracket (column : Text) : Text := column.dropWhile (· ≠ '[')

namespace PerfRow
variable (row : PerfRow)

/-- What is taken for the marker, and the word after it. -/
def found : Text × Text :=
  match row.layout with
  | .symbolOnly => (marker row.kernel, row.symbol)
  | .withObject command sharedObject =>
    if '[' ∈ command then (fromBracket command, sharedObject)
    else if '[' ∈ sharedObject then (fromBracket sharedObject, marker row.kernel)
    else (marker row.kernel, row.symbol)

def read : HotFunction where
  symbol := String.ofList row.found.2
  «module» := if "[k]".toList <+: row.found.1 then "kernel" else "user"
  overheadPercent := Double.round row.overhead.value

/-- No column has a bracket, or the first that has one happens to say what the marker and the symbol say. -/
def Clear : Prop :=
  match row.layout with
  | .symbolOnly => True
  | .withObject command sharedObject =>
    if '[' ∈ command then
      sharedObject = row.symbol ∧ ("[k]".toList <+: fromBracket command ↔ row.kernel = true)
    else if '[' ∈ sharedObject then
      marker row.kernel = row.symbol ∧ ("[k]".toList <+: fromBracket sharedObject ↔ row.kernel = true)
    else True

/-- The function a row is about. -/
def Shows (hot : HotFunction) : Prop :=
  hot.symbol.toList = row.symbol ∧ (hot.module = "kernel" ↔ row.kernel = true)

theorem isWord_of_mem_line : ∀ w ∈ (row.overhead.text ++ ['%']) :: Text.ofInt row.samples ::
    (row.layout.columns ++ marker row.kernel :: row.symbol :: List.replicate row.placeholders ['-']),
    Text.IsWord w := by
  intro w hw
  rw [← row.words_line] at hw
  exact Text.mem_splitWhitespace hw

theorem exists_fromBracket {column : Text} (h : '[' ∈ column) :
    ∃ before after, column = before ++ '[' :: after ∧ '[' ∉ before ∧ fromBracket column = '[' :: after := by
  obtain ⟨before, after, rfl, hbefore⟩ := List.eq_append_cons_of_mem h
  refine ⟨before, after, rfl, hbefore, ?_⟩
  have hnot : ∀ c ∈ before, decide (c ≠ '[') = true := fun c hc =>
    decide_eq_true fun heq => hbefore (heq ▸ hc)
  rw [fromBracket, List.dropWhile_append_of_pos hnot]
  rfl

/-- The words of a row up to the first bracket, and after the word that has it. -/
theorem exists_found : ∃ earlier before after later,
    Text.ofInt row.samples :: (row.layout.columns ++ marker row.kernel :: row.symbol ::
        List.replicate row.placeholders ['-']) =
      earlier ++ (before ++ '[' :: after) :: row.found.2 :: later ∧
    '[' ∉ before ∧ (∀ w ∈ earlier, '[' ∉ w) ∧ row.found.1 = '[' :: after := by
  have hsamples : '[' ∉ Text.ofInt row.samples := by
    intro h
    rcases Text.mem_ofInt h with h | h <;> cases h
  obtain ⟨after, hmarker⟩ : ∃ after, marker row.kernel = [] ++ '[' :: after := by
    cases row.kernel
    · exact ⟨['.', ']'], rfl⟩
    · exact ⟨['k', ']'], rfl⟩
  cases hlayout : row.layout with
  | symbolOnly =>
    refine ⟨[Text.ofInt row.samples], [], after, List.replicate row.placeholders ['-'], ?_⟩
    simp [found, PerfLayout.columns, hlayout, hmarker, hsamples]
  | withObject command sharedObject =>
    by_cases hcommand : '[' ∈ command
    · obtain ⟨before, after, rfl, hbefore, hfrom⟩ := exists_fromBracket hcommand
      refine ⟨[Text.ofInt row.samples], before, after, marker row.kernel :: row.symbol ::
        List.replicate row.placeholders ['-'], ?_⟩
      simp [found, PerfLayout.columns, hlayout, hfrom, hsamples, hbefore]
    · by_cases hobject : '[' ∈ sharedObject
      · obtain ⟨before, after, rfl, hbefore, hfrom⟩ := exists_fromBracket hobject
        refine ⟨[Text.ofInt row.samples, command], before, after, row.symbol ::
          List.replicate row.placeholders ['-'], ?_⟩
        simp [found, PerfLayout.columns, hlayout, hfrom, hsamples, hbefore, hcommand]
      · refine ⟨[Text.ofInt row.samples, command, sharedObject], [], after,
          List.replicate row.placeholders ['-'], ?_⟩
        simp [found, PerfLayout.columns, hlayout, hmarker, hsamples, hcommand, hobject]

theorem trim_line : ∃ rest, Text.trim row.line = row.overhead.text ++ '%' :: rest ∧
    Text.splitWhitespace rest = Text.ofInt row.samples ::
      (row.layout.columns ++ marker row.kernel :: row.symbol :: List.replicate row.placeholders ['-']) := by
  have hwords := (Text.splitWhitespace_trim row.line).trans row.words_line
  obtain ⟨rest, hline, -, hrest⟩ := Text.eq_append_of_words (Text.head?_trim row.line) hwords
  exact ⟨rest, by rw [hline, List.append_assoc, List.singleton_append], hrest⟩

theorem ne_of_mem_overhead {c : Char} (h : c ∈ row.overhead.text) : c ≠ '%' ∧ c ≠ '#' := by
  have hdigit : ∀ n, Decimal.digit n ≠ '%' ∧ Decimal.digit n ≠ '#' := by decide
  obtain rfl | ⟨n, rfl⟩ := row.overhead.mem_text h
  · decide
  · exact hdigit n

/-- A row is read as what is taken for its marker, and the word after that. -/
theorem hotFunction_line : hotFunction (Text.trim row.line) = some row.read := by
  obtain ⟨rest, hline, hrest⟩ := row.trim_line
  obtain ⟨earlier, before, after, later, hfound, hbefore, hearlier, hmark⟩ := row.exists_found
  rw [← Text.splitWhitespace_trimStart, hfound] at hrest
  obtain ⟨front, back, hsplit, hfront, hback⟩ := Text.exists_find_of_words (by decide) hbefore hearlier hrest
  have hpercent : '%' ∉ row.overhead.text := fun h => (row.ne_of_mem_overhead h).1 rfl
  have hoverhead : Text.IsWord row.overhead.text :=
    ⟨row.overhead.text_ne_nil, fun c hc =>
      (row.isWord_of_mem_line _ List.mem_cons_self).2 c (List.mem_append_left _ hc)⟩
  have hpart := (Text.splitWhitespace_trim ('[' :: back)).trans hback
  have hkernel : ['[', 'k', ']'] <+: Text.trim ('[' :: back) ↔ ['[', 'k', ']'] <+: row.found.1 := by
    have hvisible : ∀ c ∈ ['[', 'k', ']'], Text.isWhitespace c = false := by
      simp only [List.forall_mem_cons]
      exact ⟨rfl, rfl, rfl, List.forall_mem_nil _⟩
    rw [hmark]
    exact Text.isPrefix_iff_of_words hvisible (Text.head?_trim _) hpart
  have hsymbol : row.found.2 ≠ [] := by
    refine (row.isWord_of_mem_line _ (List.mem_cons_of_mem _ ?_)).1
    rw [hfound]
    simp
  rw [hotFunction, hline, Text.splitOnce_append_cons hpercent]
  simp [Text.trim_of_isWord hoverhead, row.overhead.parseF64_text, hsplit, Text.idxOf?_append_cons hfront,
    hpart, hsymbol, hkernel, read]

theorem clear_iff : row.Clear ↔ row.Shows row.read := by
  have hmarker : ['[', 'k', ']'] <+: marker row.kernel ↔ row.kernel = true := by
    cases row.kernel <;> decide
  have hshows : row.Shows row.read ↔
      row.found.2 = row.symbol ∧ ("[k]".toList <+: row.found.1 ↔ row.kernel = true) := by
    simp [Shows, read]
  rw [hshows, Clear, found]
  cases row.layout with
  | symbolOnly => simp [hmarker]
  | withObject command sharedObject =>
    by_cases hcommand : '[' ∈ command
    · simp [hcommand]
    · by_cases hobject : '[' ∈ sharedObject
      · simp [hcommand, hobject]
      · simp [hcommand, hobject, hmarker]

end PerfRow

theorem addReportLine_line (found : List HotFunction × UInt32) (line : ReportLine) :
    addReportLine found line.line = (found.1 ++ (line.row?.map PerfRow.read).toList, found.2) := by
  cases line with
  | comment line hash => simp [addReportLine, ReportLine.line, ReportLine.row?, hash]
  | blank line white =>
    have hempty : Text.trim line = [] := by
      rw [Text.trim, Text.trimStart, List.dropWhile_eq_nil_iff.mpr white]
      rfl
    simp [addReportLine, ReportLine.line, ReportLine.row?, hempty]
  | data row =>
    obtain ⟨rest, hline, -⟩ := row.trim_line
    obtain ⟨c, digits, hoverhead⟩ := List.exists_cons_of_ne_nil row.overhead.text_ne_nil
    have hc : c ≠ '#' := (row.ne_of_mem_overhead (hoverhead ▸ List.mem_cons_self)).2
    have hdata : ¬ (Text.trim row.line = [] ∨ (Text.trim row.line).head? = some '#') := by
      rw [hline, hoverhead]
      simpa using hc
    simp only [addReportLine, ReportLine.line, if_neg hdata, row.hotFunction_line]
    rfl

/-- One function a data row, in their order. -/
theorem parsePerfReport_body (report : PerfReport) (path : String) :
    parsePerfReport report.body path = .ok (report.rows.map PerfRow.read) := by
  have hfold (lines : List ReportLine) (found : List HotFunction × UInt32) :
      (lines.map ReportLine.line).foldl addReportLine found =
        (found.1 ++ (lines.filterMap ReportLine.row?).map PerfRow.read, found.2) := by
    induction lines generalizing found with
    | nil => simp
    | cons line lines ih =>
      rw [List.map_cons, List.foldl_cons, addReportLine_line, ih, List.filterMap_cons]
      cases line.row? <;> simp
  rw [parsePerfReport, report.lines_body, hfold]
  simp [PerfReport.rows]

/-- Every row is read with its own symbol and side when no column before a marker is taken for one. -/
theorem parsePerfReport_shows_iff (report : PerfReport) (path : String) :
    (∃ hot, parsePerfReport report.body path = .ok hot ∧ List.Forall₂ PerfRow.Shows report.rows hot) ↔
      ∀ row ∈ report.rows, row.Clear := by
  have hshows : List.Forall₂ PerfRow.Shows report.rows (report.rows.map PerfRow.read) ↔
      ∀ row ∈ report.rows, row.Clear := by
    rw [List.forall₂_map_right_iff, List.forall₂_same]
    exact forall₂_congr fun row _ => row.clear_iff.symm
  rw [parsePerfReport_body, ← hshows]
  constructor
  · rintro ⟨hot, heq, hall⟩
    obtain rfl := Except.ok.inj heq
    exact hall
  · exact fun hall => ⟨_, rfl, hall⟩

/-- A sample of the kernel, under the shared object that perf names for it. -/
def kernelRow : PerfRow where
  line := "    25.00%        5  swapper  [kernel.kallsyms]  [k] do_syscall_64".toList
  overhead := ⟨[2, 5], [0, 0], by decide⟩
  samples := 5
  layout := .withObject "swapper".toList "[kernel.kallsyms]".toList
  kernel := true
  symbol := "do_syscall_64".toList
  placeholders := 0
  words_line := by decide +kernel

def kernelReport : PerfReport where
  body := kernelRow.line
  lines := [.data kernelRow]
  lines_body := by decide +kernel

/-- It is reported as a function of the program, by the name of the marker. -/
theorem parsePerfReport_kernel_as_user :
    parsePerfReport kernelReport.body "perf report" =
        .ok [{ symbol := "[k]", «module» := "user", overheadPercent := .finite 25 }] ∧
      ¬ ∃ hot, parsePerfReport kernelReport.body "perf report" = .ok hot ∧
        List.Forall₂ PerfRow.Shows kernelReport.rows hot := by
  have hreport : parsePerfReport kernelReport.body "perf report" =
      .ok [{ symbol := "[k]", «module» := "user", overheadPercent := .finite 25 }] := by
    decide +kernel
  refine ⟨hreport, ?_⟩
  rintro ⟨hot, hhot, hshows⟩
  obtain rfl := Except.ok.inj (hreport.symm.trans hhot)
  obtain ⟨hsymbol, -⟩ := (List.forall₂_cons.mp hshows).1
  exact absurd hsymbol (by decide)

end ProcessExplorer.Telemetry.Linux
