import ProcessExplorer.Library.Decimal
import ProcessExplorer.Library.Inserted
import ProcessExplorer.Library.Words
import ProcessExplorer.Telemetry.Linux.Procfs.Common

/-! The summary of strace: one row a system call, where a count of errors that is zero leaves its column
blank. Rows are told from everything else by the number of their words and by what parses. -/
namespace ProcessExplorer.Telemetry.Linux
open Library Model

structure SyscallStat where
  name : String
  calls : UInt64
  errors : UInt64
  timePercent : Double
  seconds : Double
  deriving DecidableEq

/-- A row below the header, split into words; none where it is skipped. -/
def syscallStat (fields : List Text) : Option SyscallStat :=
  match fields with
  | time :: seconds :: _ :: calls :: fourth :: rest =>
    if fields.getLast? = some "total".toList then none else do
      let timePercent ← Text.parseF64 time
      let seconds ← Text.parseF64 seconds
      let calls ← Text.parseU64 calls
      let (errors, name) := match rest with
        | name :: _ => ((Text.parseU64 fourth).getD 0, name)
        | [] => (0, fourth)
      some { name := String.ofList name, calls, errors, timePercent, seconds }
  | _ => none

/-- One line: the rows found so far, and whether the header was seen. -/
def addSummaryLine (found : List SyscallStat × Bool) (line : Text) : List SyscallStat × Bool :=
  let line := Text.trim line
  if "% time".toList <+: line then (found.1, true)
  else if found.2 = false ∨ line = [] ∨ line.head? = some '-' then found
  else (found.1 ++ (syscallStat (Text.splitWhitespace line)).toList, found.2)

def parseStraceSummary (stderr : Text) : Result (List SyscallStat) :=
  .ok ((Text.lines stderr).foldl addSummaryLine ([], false)).1

/-- A row for a system call, with any white space between its words. -/
structure StraceRow where
  line : Text
  time : Decimal
  seconds : Decimal
  usecsPerCall : Text
  calls : UInt64
  errors : UInt64
  name : Text
  name_ne : name ≠ "total".toList
  words_line : Text.splitWhitespace line = time.text :: seconds.text :: usecsPerCall :: Text.ofInt calls.toNat ::
    (if errors = 0 then [name] else [Text.ofInt errors.toNat, name])

def StraceRow.stat (row : StraceRow) : SyscallStat where
  name := String.ofList row.name
  calls := row.calls
  errors := row.errors
  timePercent := Double.round row.time.value
  seconds := Double.round row.seconds.value

/-- What stands from the header on: a rule, the rows, another rule and the sums of the columns. -/
structure StraceTable where
  header : Text
  isHeader : "% time".toList <+: Text.trim header
  rule : Text
  isRule : (Text.trim rule).head? = some '-'
  rows : List StraceRow
  closingRule : Text
  isClosingRule : (Text.trim closingRule).head? = some '-'
  total : Text
  percent : Decimal
  sums : List Text
  words_total : Text.splitWhitespace total = percent.text :: (sums ++ ["total".toList])

/-- The lines below the header. -/
def StraceTable.below (table : StraceTable) : List Text :=
  table.rule :: (table.rows.map StraceRow.line ++ [table.closingRule, table.total])

/-- A line that is not a header and has too few words, or no number where one is needed. -/
def Malformed (line : Text) : Prop :=
  ¬ "% time".toList <+: line ∧
    ((Text.splitWhitespace line).length < 5 ∨
      (∃ time ∈ (Text.splitWhitespace line)[0]?, Text.parseF64 time = none) ∨
      (∃ seconds ∈ (Text.splitWhitespace line)[1]?, Text.parseF64 seconds = none) ∨
      ∃ calls ∈ (Text.splitWhitespace line)[3]?, Text.parseU64 calls = none)

theorem syscallStat_of_total {fields : List Text} (h : fields.getLast? = some "total".toList) :
    syscallStat fields = none := by
  unfold syscallStat
  split
  · rw [if_pos h]
  · rfl

theorem syscallStat_of_malformed {line : Text} (h : Malformed line) :
    syscallStat (Text.splitWhitespace line) = none := by
  obtain ⟨-, h⟩ := h
  unfold syscallStat
  split
  · rename_i time seconds _ calls fourth rest hfields
    rw [hfields] at h
    split
    · rfl
    · rcases h with h | ⟨_, ht, h⟩ | ⟨_, hs, h⟩ | ⟨_, hc, h⟩
      · simp only [List.length_cons] at h
        omega
      · obtain rfl := Option.some.inj ht
        simp [h]
      · obtain rfl := Option.some.inj hs
        simp [h]
      · obtain rfl := Option.some.inj hc
        simp [h]
  · rfl

theorem syscallStat_row (row : StraceRow) : syscallStat (Text.splitWhitespace row.line) = some row.stat := by
  have hname : row.name ≠ ['t', 'o', 't', 'a', 'l'] := row.name_ne
  rw [row.words_line]
  by_cases herrors : row.errors = 0
  · simp [syscallStat, herrors, hname, Decimal.parseF64_text, Text.parseU64_ofInt, StraceRow.stat]
  · simp [syscallStat, herrors, hname, Decimal.parseF64_text, Text.parseU64_ofInt, StraceRow.stat]

section Lines
variable (stats : List SyscallStat)

/-- Before the header nothing is read. -/
theorem foldl_before {before : List Text} (h : ∀ line ∈ before, ¬ "% time".toList <+: Text.trim line) :
    before.foldl addSummaryLine (stats, false) = (stats, false) := by
  induction before with
  | nil => rfl
  | cons line before ih =>
    obtain ⟨hline, hbefore⟩ := List.forall_mem_cons.mp h
    have hsame : addSummaryLine (stats, false) line = (stats, false) := by
      simp only [addSummaryLine, if_neg hline, true_or, if_true]
    rw [List.foldl_cons, hsame, ih hbefore]

/-- Below the header a line that is not another one, a rule or blank is read as a row. -/
theorem addSummaryLine_below {line : Text} (hheader : ¬ "% time".toList <+: Text.trim line)
    (hblank : Text.trim line ≠ []) (hrule : (Text.trim line).head? ≠ some '-') :
    addSummaryLine (stats, true) line =
      (stats ++ (syscallStat (Text.splitWhitespace line)).toList, true) := by
  simp only [addSummaryLine]
  rw [if_neg hheader, if_neg (by simp [hblank, hrule]), Text.splitWhitespace_trim]

theorem addSummaryLine_rule {line : Text} (h : (Text.trim line).head? = some '-') :
    addSummaryLine (stats, true) line = (stats, true) := by
  have hheader : ¬ "% time".toList <+: Text.trim line := by
    rintro ⟨rest, hrest⟩
    rw [← hrest] at h
    cases h
  simp only [addSummaryLine]
  rw [if_neg hheader, if_pos (.inr (.inr h))]

/-- A line that begins with a number is read as a row. -/
theorem addSummaryLine_of_decimal {line : Text} {d : Decimal} {words : List Text}
    (h : Text.splitWhitespace line = d.text :: words) :
    addSummaryLine (stats, true) line =
      (stats ++ (syscallStat (Text.splitWhitespace line)).toList, true) := by
  obtain ⟨rest, htrim, -⟩ := Text.trim_of_words h
  obtain ⟨c, digits, hd⟩ := List.exists_cons_of_ne_nil d.text_ne_nil
  have hdigit : ∀ n, Decimal.digit n ≠ '%' ∧ Decimal.digit n ≠ '-' := by decide
  have hc : c ≠ '%' ∧ c ≠ '-' := by
    obtain rfl | ⟨n, rfl⟩ := d.mem_text (hd ▸ List.mem_cons_self)
    · decide
    · exact hdigit n
  rw [hd, List.cons_append] at htrim
  apply addSummaryLine_below
  · rw [htrim]
    rintro ⟨more, hmore⟩
    exact hc.1 (List.cons.inj hmore).1.symm
  · rw [htrim]
    exact List.cons_ne_nil _ _
  · rw [htrim]
    exact fun hhead => hc.2 (Option.some.inj hhead)

/-- Whatever a line is, the header stays seen; and a malformed one adds no row. -/
theorem addSummaryLine_true (line : Text) :
    (addSummaryLine (stats, true) line).2 = true ∧
      (syscallStat (Text.splitWhitespace line) = none → addSummaryLine (stats, true) line = (stats, true)) := by
  by_cases hheader : "% time".toList <+: Text.trim line
  · simp only [addSummaryLine, if_pos hheader, implies_true, and_self]
  · by_cases hskipped : Text.trim line = [] ∨ (Text.trim line).head? = some '-'
    · have hsame : addSummaryLine (stats, true) line = (stats, true) := by
        simp only [addSummaryLine]
        rw [if_neg hheader, if_pos (.inr hskipped)]
      simp [hsame]
    · obtain ⟨hblank, hrule⟩ := not_or.mp hskipped
      rw [addSummaryLine_below stats hheader hblank hrule]
      exact ⟨rfl, fun h => by simp [h]⟩

theorem foldl_rows (rows : List StraceRow) :
    (rows.map StraceRow.line).foldl addSummaryLine (stats, true) = (stats ++ rows.map StraceRow.stat, true) := by
  induction rows generalizing stats with
  | nil => simp
  | cons row rows ih =>
    rw [List.map_cons, List.foldl_cons, addSummaryLine_of_decimal stats row.words_line, syscallStat_row, ih]
    simp

end Lines

theorem foldl_below (table : StraceTable) :
    table.below.foldl addSummaryLine ([], true) = (table.rows.map StraceRow.stat, true) := by
  have hlast : (Text.splitWhitespace table.total).getLast? = some "total".toList := by
    rw [table.words_total, ← List.cons_append, List.getLast?_concat]
  rw [StraceTable.below, List.foldl_cons, addSummaryLine_rule [] table.isRule, List.foldl_append, foldl_rows,
    List.foldl_cons, addSummaryLine_rule _ table.isClosingRule, List.foldl_cons,
    addSummaryLine_of_decimal _ table.words_total, syscallStat_of_total hlast]
  simp

/-- The rows of the table are read as they are, whatever stands before the header and with malformed lines
put in anywhere, as long as no line before the header is one but for white space at its start. -/
theorem parseStraceSummary_rows (table : StraceTable) (before below : List Text) (stderr : Text)
    (hbefore : ∀ line ∈ before, ¬ "% time".toList <+: Text.trim line)
    (hbelow : Inserted Malformed table.below below)
    (hstderr : Text.lines stderr = before ++ table.header :: below) :
    parseStraceSummary stderr = .ok (table.rows.map StraceRow.stat) := by
  have hheader : addSummaryLine ([], false) table.header = ([], true) := by
    simp only [addSummaryLine, if_pos table.isHeader]
  have hsaw : ∀ (found : List SyscallStat × Bool) line, found.2 = true → (addSummaryLine found line).2 = true := by
    rintro ⟨stats, _⟩ line rfl
    exact (addSummaryLine_true stats line).1
  have hskip : ∀ (found : List SyscallStat × Bool) line, found.2 = true → Malformed line →
      addSummaryLine found line = found := by
    rintro ⟨stats, _⟩ line rfl h
    exact (addSummaryLine_true stats line).2 (syscallStat_of_malformed h)
  rw [parseStraceSummary, hstderr, List.foldl_append, foldl_before [] hbefore, List.foldl_cons, hheader,
    hbelow.foldl_eq hsaw hskip rfl, foldl_below]

private def decimalDigits (digits : List ℕ) : List (Fin 10) := digits.map fun n => ⟨n % 10, Nat.mod_lt n (by decide)⟩

def readRow : StraceRow where
  line := " 45.23    0.001234          12       102           read".toList
  time := ⟨decimalDigits [4, 5], decimalDigits [2, 3], by decide⟩
  seconds := ⟨decimalDigits [0], decimalDigits [0, 0, 1, 2, 3, 4], by decide⟩
  usecsPerCall := "12".toList
  calls := 102
  errors := 0
  name := "read".toList
  name_ne := by decide
  words_line := by decide +kernel

/-- A summary with one row. -/
def readTable : StraceTable where
  header := "% time     seconds  usecs/call     calls    errors syscall".toList
  isHeader := by decide
  rule := "------ ----------- ----------- --------- --------- ----------------".toList
  isRule := by decide
  rows := [readRow]
  closingRule := "------ ----------- ----------- --------- --------- ----------------".toList
  isClosingRule := by decide
  total := "100.00    0.001234                     102           total".toList
  percent := ⟨decimalDigits [1, 0, 0], decimalDigits [0, 0], by decide⟩
  sums := ["0.001234".toList, "102".toList]
  words_total := by decide +kernel

/-- The whole output, with lines before and among those of the table. -/
def straceOutput (before below : List Text) : Text :=
  (before ++ readTable.header :: below).flatMap (· ++ ['\n'])

def oopsLine : Text := " oops     not-a-number       x       n/a          broken".toList

theorem malformed_oopsLine : Malformed oopsLine :=
  ⟨by decide, .inr (.inl ⟨"oops".toList, by decide +kernel, by decide +kernel⟩)⟩

theorem parseStraceSummary_rows_among_malformed :
    parseStraceSummary (straceOutput ["strace: Process 4242 attached".toList]
      (readTable.rule :: oopsLine :: readTable.below.tail)) = .ok [readRow.stat] :=
  parseStraceSummary_rows readTable ["strace: Process 4242 attached".toList]
    (readTable.rule :: oopsLine :: readTable.below.tail) _ (List.forall_mem_singleton.mpr (by decide))
    (.kept readTable.rule (.added malformed_oopsLine (.refl readTable.below.tail))) (by decide +kernel)

/-- A header that white space indents is one too, so what follows it before the real one is read as a row,
although neither line starts with the words of the header. -/
theorem parseStraceSummary_indented_header :
    let before := ["  % time".toList, " 10.00    0.000100          10        10           open".toList]
    (∀ line ∈ before, ¬ "% time".toList <+: line) ∧
      Text.lines (straceOutput before readTable.below) = before ++ readTable.header :: readTable.below ∧
      (parseStraceSummary (straceOutput before readTable.below)).map (List.map SyscallStat.name) =
        .ok ["open", "read"] ∧
      readTable.rows.map (fun row => row.stat.name) = ["read"] := by
  intro before
  refine ⟨?_, by decide +kernel, by decide +kernel, by decide⟩
  exact List.forall_mem_cons.mpr ⟨by decide, List.forall_mem_singleton.mpr (by decide)⟩

end ProcessExplorer.Telemetry.Linux
