import ProcessExplorer.Investigation.CrashAnalysis

/-! Which line of the kernel log an OOM verdict rests on. The digits of the pid are looked for anywhere in
a line, so those within a longer number count too. -/
namespace ProcessExplorer.Investigation
open Library Model Telemetry Intelligence

/-- The word stands somewhere in the text with no digit right before or after it. -/
def StandsAlone (word text : Text) : Prop :=
  ∃ before after, text = before ++ (word ++ after) ∧ (∀ c ∈ before.getLast?, c.isDigit = false) ∧
    ∀ c ∈ after.head?, c.isDigit = false

/-- The word stands at a position, with no digit right before or after it. -/
def standsAloneAt (word text : Text) (n : ℕ) : Bool :=
  text.drop n == word ++ text.drop (n + word.length) && (text.take n).getLast?.all (!·.isDigit) &&
    (text.drop (n + word.length)).head?.all (!·.isDigit)

/-- It is enough to look at every position of the text. -/
theorem any_standsAloneAt_iff (word text : Text) :
    (List.range (text.length + 1)).any (standsAloneAt word text) = true ↔ StandsAlone word text := by
  simp only [List.any_eq_true, List.mem_range, standsAloneAt, Bool.and_eq_true, beq_iff_eq, Option.all_eq_true,
    Bool.not_eq_eq_eq_not, Bool.not_true, and_assoc]
  constructor
  · rintro ⟨n, -, hdrop, hbefore, hafter⟩
    exact ⟨text.take n, text.drop (n + word.length), by rw [← hdrop, List.take_append_drop], hbefore, hafter⟩
  · rintro ⟨before, after, rfl, hbefore, hafter⟩
    refine ⟨before.length, by rw [List.length_append]; omega, ?_⟩
    rw [List.drop_left, List.take_left, ← List.drop_drop, List.drop_left, List.drop_left]
    exact ⟨rfl, hbefore, hafter⟩

instance (word text : Text) : Decidable (StandsAlone word text) :=
  decidable_of_iff _ (any_standsAloneAt_iff word text)

theorem StandsAlone.contains {word text : Text} (h : StandsAlone word text) : Text.contains word text = true := by
  obtain ⟨before, after, rfl, -, -⟩ := h
  exact decide_eq_true ⟨before, after, by simp⟩

/-- The numeral of a pid. -/
def digitsOf (pid : Pid) : Text := (toString pid).toList

def IsOomVerdict (f : Finding) : Prop := f.title = "Likely OOM kill" ∨ f.title = "Possible OOM kill"

instance (f : Finding) : Decidable (IsOomVerdict f) := inferInstanceAs (Decidable (_ ∨ _))

/-- An OOM verdict is there when a line is. -/
theorem isOomVerdict_crashFinding_iff {pid : Pid} {exit : TimelineEvent} {growth : Option TimelineEvent}
    {line : Option String} {f : Finding} (hf : crashFinding pid exit growth line = some f) :
    IsOomVerdict f ↔ line.isSome := by
  cases growth <;> cases line <;> rw [crashFinding, Finding.new_eq_some_iff] at hf <;> obtain ⟨rfl, -⟩ := hf <;>
    simp [IsOomVerdict]

theorem evidence_crashFinding_line {pid : Pid} {exit : TimelineEvent} {growth : Option TimelineEvent}
    {line : String} {f : Finding} (hf : crashFinding pid exit growth (some line) = some f) :
    f.evidence = exitEvidence pid exit :: ((growth.map (growthEvidence pid)).toList ++ [oomEvidence exit line]) := by
  rcases evidence_crashFinding hf with ⟨-, hnone, -⟩ | hevidence
  · cases hnone
  · exact hevidence

/-- The line is what the finding cites as the matching one. -/
theorem cited_crashFinding_iff {pid : Pid} {exit : TimelineEvent} {growth : Option TimelineEvent} {line : String}
    {f : Finding} (hf : crashFinding pid exit growth (some line) = some f) (raw : String) :
    (∃ ev ∈ f.evidence, ev.description = "matching OOM-kill line" ∧ ev.raw = raw) ↔ raw = line := by
  have hexitText : "exit event" ≠ "matching OOM-kill line" := by decide
  have hgrowthText : "memory-growth event preceding exit" ≠ "matching OOM-kill line" := by decide
  rw [evidence_crashFinding_line hf]
  constructor
  · rintro ⟨ev, hev, hdescription, rfl⟩
    rcases List.mem_cons.mp hev with rfl | hev
    · exact absurd hdescription hexitText
    · rcases List.mem_append.mp hev with hev | hev
      · obtain ⟨e, -, rfl⟩ := Option.map_eq_some_iff.mp (Option.mem_toList.mp hev)
        exact absurd hdescription hgrowthText
      · rw [List.mem_singleton.mp hev, oomEvidence]
  · rintro rfl
    exact ⟨oomEvidence exit raw, by simp, rfl, rfl⟩

section Verdict
variable (s : ProcessIntelligence) (pid : Pid) (oomKillLines : List String)

/-- A verdict is backed by a line in which the pid is a number of its own. -/
def NamesPid : Prop :=
  ∀ f, crashAnalysis s pid oomKillLines = some f → IsOomVerdict f →
    ∃ line ∈ oomKillLines, StandsAlone (digitsOf pid) line.toList

/-- The line that a verdict cites as the matching one is such a line. -/
def CitesPid : Prop :=
  ∀ f, crashAnalysis s pid oomKillLines = some f → IsOomVerdict f →
    ∀ ev ∈ f.evidence, ev.description = "matching OOM-kill line" → StandsAlone (digitsOf pid) ev.raw.toList

/-- The first line with the digits of the pid in it. -/
def matchingLine : Option String :=
  oomKillLines.find? fun line => Text.contains (digitsOf pid) line.toList

variable {s pid oomKillLines}

theorem crashAnalysis_of_exit {exit : TimelineEvent} (hexit : exitEvent s pid = some exit) :
    crashAnalysis s pid oomKillLines =
      crashFinding pid exit (growthBeforeExit s pid exit) (matchingLine pid oomKillLines) := by
  rw [crashAnalysis, hexit]
  rfl

/-- Without an exit in the timeline, or a line with the digits in it, there is no verdict. -/
theorem exists_line_of_verdict {f : Finding} (hf : crashAnalysis s pid oomKillLines = some f)
    (hverdict : IsOomVerdict f) : ∃ exit line, exitEvent s pid = some exit ∧
      matchingLine pid oomKillLines = some line ∧
      ∀ raw, (∃ ev ∈ f.evidence, ev.description = "matching OOM-kill line" ∧ ev.raw = raw) ↔ raw = line := by
  cases hexit : exitEvent s pid with
  | none =>
    rw [crashAnalysis, hexit] at hf
    obtain ⟨rfl, -⟩ := Finding.new_eq_some_iff.mp hf
    simp [IsOomVerdict] at hverdict
  | some exit =>
    rw [crashAnalysis_of_exit hexit] at hf
    obtain ⟨line, hline⟩ := Option.isSome_iff_exists.mp ((isOomVerdict_crashFinding_iff hf).mp hverdict)
    rw [hline] at hf
    exact ⟨exit, line, rfl, hline, cited_crashFinding_iff hf⟩

/-- With both there is one, and it cites the first such line. -/
theorem exists_verdict {exit : TimelineEvent} {line : String} (hexit : exitEvent s pid = some exit)
    (hline : matchingLine pid oomKillLines = some line) :
    ∃ f, crashAnalysis s pid oomKillLines = some f ∧ IsOomVerdict f ∧
      ∃ ev ∈ f.evidence, ev.description = "matching OOM-kill line" ∧ ev.raw = line := by
  obtain ⟨f, hf, -⟩ := concludes_crashFinding pid exit (growthBeforeExit s pid exit) (some line)
  refine ⟨f, ?_, (isOomVerdict_crashFinding_iff hf).mpr rfl, (cited_crashFinding_iff hf line).mpr rfl⟩
  rw [crashAnalysis_of_exit hexit, hline, hf]

theorem exitEvent_eq_none_iff :
    exitEvent s pid = none ↔ ∀ e ∈ s.timelineOf pid, isExited e.kind = false := by
  simp [exitEvent, List.find?_eq_none]

theorem matchingLine_eq_none_iff : matchingLine pid oomKillLines = none ↔
    ∀ line ∈ oomKillLines, Text.contains (digitsOf pid) line.toList = false := by
  simp [matchingLine, List.find?_eq_none]

end Verdict

/-- After every run, an OOM verdict names the right process exactly when the pid has not exited, or its digits
are in no line, or they are a number of their own in some line; and the line cited is the right one exactly
when they are so in the first line that has them. -/
theorem oom_verdict_names_pid_iff (ticks : List Tick) (pid : Pid) (oomKillLines : List String) :
    (NamesPid (afterRun ticks) pid oomKillLines ↔
      (∀ e ∈ (afterRun ticks).timelineOf pid, isExited e.kind = false) ∨
      (∀ line ∈ oomKillLines, Text.contains (digitsOf pid) line.toList = false) ∨
      ∃ line ∈ oomKillLines, StandsAlone (digitsOf pid) line.toList) ∧
    (CitesPid (afterRun ticks) pid oomKillLines ↔
      (∀ e ∈ (afterRun ticks).timelineOf pid, isExited e.kind = false) ∨
      ∀ line ∈ oomKillLines.find? fun line => Text.contains (digitsOf pid) line.toList,
        StandsAlone (digitsOf pid) line.toList) := by
  rw [← exitEvent_eq_none_iff, ← matchingLine_eq_none_iff]
  constructor
  · constructor
    · intro hnames
      cases hexit : exitEvent (afterRun ticks) pid with
      | none => exact .inl rfl
      | some exit =>
        cases hline : matchingLine pid oomKillLines with
        | none => exact .inr (.inl rfl)
        | some line =>
          obtain ⟨f, hf, hverdict, -⟩ := exists_verdict hexit hline
          exact .inr (.inr (hnames f hf hverdict))
    · intro hcond f hf hverdict
      obtain ⟨exit, line, hexit, hline, -⟩ := exists_line_of_verdict hf hverdict
      rcases hcond with hnone | hnone | hsome
      · cases hexit.symm.trans hnone
      · cases hline.symm.trans hnone
      · exact hsome
  · constructor
    · intro hcites
      cases hexit : exitEvent (afterRun ticks) pid with
      | none => exact .inl rfl
      | some exit =>
        refine .inr fun line hline => ?_
        obtain ⟨f, hf, hverdict, ev, hev, hdescription, rfl⟩ := exists_verdict hexit hline
        exact hcites f hf hverdict ev hev hdescription
    · intro hcond f hf hverdict ev hev hdescription
      obtain ⟨exit, line, hexit, hline, hcited⟩ := exists_line_of_verdict hf hverdict
      rw [(hcited ev.raw).mp ⟨ev, hev, hdescription, rfl⟩]
      rcases hcond with hnone | halone
      · cases hexit.symm.trans hnone
      · exact halone line hline

/-- Another process is killed, whose pid has a 1 in it; process 1 had grown and exited. -/
theorem oom_verdict_on_digits_of_other_pid :
    let lines := ["Out of memory: Killed process 4127 (chrome)"]
    (crashAnalysis (afterRun growthThenExit) 1 lines).map (fun f => (f.title, f.severity)) =
        some ("Likely OOM kill", .critical) ∧
      ¬ NamesPid (afterRun growthThenExit) 1 lines := by
  intro lines
  have htitle : (crashAnalysis (afterRun growthThenExit) 1 lines).map (fun f => (f.title, f.severity)) =
      some ("Likely OOM kill", .critical) := by decide +kernel
  refine ⟨htitle, fun hnames => ?_⟩
  obtain ⟨f, hf, hf'⟩ := Option.map_eq_some_iff.mp htitle
  obtain ⟨line, hline, halone⟩ := hnames f hf (.inl (congrArg Prod.fst hf'))
  obtain rfl := List.mem_singleton.mp hline
  exact absurd halone (by decide +kernel)

end ProcessExplorer.Investigation
