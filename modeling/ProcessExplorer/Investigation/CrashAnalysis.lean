import ProcessExplorer.Intelligence.CrashEvents
import ProcessExplorer.Investigation.Rules

/-! Which exit and which growth a crash analysis is built on, when the timeline holds
several generations of a pid. -/
namespace ProcessExplorer.Investigation
open Library Model Telemetry Intelligence

def crashEventsLeft (s : ProcessIntelligence) (pid : Pid) : List TimelineEvent :=
  s.timeline.filter (isCrashEvent pid)

theorem find?_isCrashEvent (events : List TimelineEvent) (pid : Pid) {p : TimelineEvent → Bool}
    (hp : ∀ e, p e → isGrowth e.kind ∨ isExited e.kind) :
    (events.filter fun e => e.pid = pid).find? p = (events.filter (isCrashEvent pid)).find? p := by
  rw [List.find?_filter, List.find?_filter]
  congr 1
  funext e
  cases hpe : p e with
  | true => rcases hp e hpe with h | h <;> simp [isCrashEvent, h]
  | false => simp

theorem exitEvent_eq (s : ProcessIntelligence) (pid : Pid) :
    exitEvent s pid = (crashEventsLeft s pid).find? (isExited ·.kind) :=
  find?_isCrashEvent s.timeline pid fun _ => .inr

theorem growthBeforeExit_eq (s : ProcessIntelligence) (pid : Pid) (exit : TimelineEvent) :
    growthBeforeExit s pid exit =
      (crashEventsLeft s pid).reverse.find? fun e => isGrowth e.kind ∧ e.observedAt ≤ exit.observedAt := by
  rw [growthBeforeExit, ProcessIntelligence.timelineOf, crashEventsLeft, ← List.filter_reverse,
    ← List.filter_reverse]
  apply find?_isCrashEvent
  intro e he
  exact .inl (of_decide_eq_true he).1

theorem crashLog_eq (ticks : List Tick) (pid : Pid) :
    ∃ older, crashLog ticks pid = older ++ crashEventsLeft (afterRun ticks) pid := by
  have hsplit := List.take_append_drop ((runEvents ticks).length - 1000) (runEvents ticks)
  refine ⟨((runEvents ticks).take ((runEvents ticks).length - 1000)).filter (isCrashEvent pid), ?_⟩
  rw [crashLog, crashEventsLeft, timeline_run, List.rtake, ← List.filter_append, hsplit]

theorem before_of_coherent {older before after : List TimelineEvent} {exit growth : TimelineEvent}
    (h : Justified Coherent (older ++ (before ++ exit :: after))) (hkind : isExited exit.kind)
    (hm : growth ∈ before ++ exit :: after) (hgrowth : isGrowth growth.kind)
    (hle : growth.observedAt ≤ exit.observedAt) : growth ∈ before := by
  rcases List.mem_append.mp hm with hm | hm
  · exact hm
  · rcases List.mem_cons.mp hm with rfl | hm
    · cases hk : growth.kind <;> simp [hk, isGrowth, isExited] at hgrowth hkind
    · -- Growth after an exit is dated after it.
      obtain ⟨between, rest, rfl⟩ := List.append_of_mem hm
      have hlt := (h (older ++ before ++ exit :: between) growth rest (by simp)).1 hgrowth exit (by simp) hkind
      exact absurd hle (Int64.not_le.mpr hlt)

theorem startTime_eq_of_coherent {older left : List TimelineEvent} (h : Justified Coherent (older ++ left))
    {exit growth : TimelineEvent} (hexit : left.find? (isExited ·.kind) = some exit) (hm : growth ∈ left)
    (hgrowth : isGrowth growth.kind) (hle : growth.observedAt ≤ exit.observedAt) :
    growth.startTime = exit.startTime := by
  obtain ⟨hkind, before, after, rfl, hbefore⟩ := List.find?_eq_some_iff_append.mp hexit
  -- Nothing before the exit is one, so the growth came since the exit before it.
  have hsince : growth ∈ sinceLastExit (older ++ before) :=
    mem_sinceLastExit_append (before_of_coherent h hkind hm hgrowth hle) fun x hx => by simpa using hbefore x hx
  exact (h (older ++ before) exit after (by simp)).2 hkind growth hsince hgrowth

theorem growthBeforeExit_startTime {ticks : List Tick} (hmono : (ticks.map Tick.now).Pairwise (· ≤ ·))
    (hd : ∀ t ∈ ticks, t.Distinct) {pid : Pid} {exit growth : TimelineEvent}
    (hexit : exitEvent (afterRun ticks) pid = some exit)
    (hgrowth : growthBeforeExit (afterRun ticks) pid exit = some growth) :
    growth.startTime = exit.startTime := by
  obtain ⟨older, hlog⟩ := crashLog_eq ticks pid
  have hcoherent := (crashOrder_run hmono hd pid).coherent
  rw [hlog] at hcoherent
  rw [exitEvent_eq] at hexit
  rw [growthBeforeExit_eq] at hgrowth
  have hm := List.mem_reverse.mp (List.mem_of_find?_eq_some hgrowth)
  have hfound := List.find?_some hgrowth
  obtain ⟨hkind, hle⟩ := of_decide_eq_true hfound
  exact startTime_eq_of_coherent hcoherent hexit hm hkind hle

/-- What a finding points at: nothing, or the exit and then the growth and the line it goes with. -/
theorem evidence_crashFinding {pid : Pid} {exit : TimelineEvent} {growth : Option TimelineEvent}
    {line : Option String} {f : Finding} (hf : crashFinding pid exit growth line = some f) :
    (growth = none ∧ line = none ∧ f.evidence = []) ∨ f.evidence = exitEvidence pid exit ::
      ((growth.map (growthEvidence pid)).toList ++ (line.map (oomEvidence exit)).toList) := by
  cases growth <;> cases line <;> rw [crashFinding, Finding.new_eq_some_iff] at hf <;> obtain ⟨rfl, -⟩ := hf
  · exact .inl ⟨rfl, rfl, rfl⟩
  all_goals exact .inr rfl

/-- What a crash analysis cites of an exit, and of the growth and the line that it goes with. -/
structure Cites (pid : Pid) (exit : TimelineEvent) (growth : Option TimelineEvent) (line : Option String)
    (evidence : List Evidence) : Prop where
  exits : ∀ ev ∈ evidence, ev.description = "exit event" → ev = exitEvidence pid exit
  growths : ∀ ev ∈ evidence, ev.description = "memory-growth event preceding exit" →
    evidence.head? = some (exitEvidence pid exit) ∧ ∃ g ∈ growth, ev = growthEvidence pid g
  exit : growth.isSome ∨ line.isSome → exitEvidence pid exit ∈ evidence
  growth : ∀ g ∈ growth, growthEvidence pid g ∈ evidence

theorem cites_crashFinding {pid : Pid} {exit : TimelineEvent} {growth : Option TimelineEvent} {line : Option String}
    {f : Finding} (hf : crashFinding pid exit growth line = some f) : Cites pid exit growth line f.evidence := by
  have hgrowthText : "memory-growth event preceding exit" ≠ "exit event" := by decide
  have hlineText : "matching OOM-kill line" ≠ "exit event" := by decide
  have hlineText' : "matching OOM-kill line" ≠ "memory-growth event preceding exit" := by decide
  rcases evidence_crashFinding hf with ⟨rfl, rfl, hnil⟩ | hevidence
  · rw [hnil]
    constructor <;> simp
  · have hmem {ev : Evidence} (hm : ev ∈ f.evidence) : ev = exitEvidence pid exit ∨
        (∃ g ∈ growth, ev = growthEvidence pid g) ∨ ∃ l, ev = oomEvidence exit l := by
      rw [hevidence, List.mem_cons, List.mem_append] at hm
      rcases hm with rfl | hm | hm
      · exact .inl rfl
      · obtain ⟨g, hg, rfl⟩ := Option.map_eq_some_iff.mp (Option.mem_toList.mp hm)
        exact .inr (.inl ⟨g, hg, rfl⟩)
      · obtain ⟨l, -, rfl⟩ := Option.map_eq_some_iff.mp (Option.mem_toList.mp hm)
        exact .inr (.inr ⟨l, rfl⟩)
    constructor
    · intro ev hm hdescription
      rcases hmem hm with rfl | ⟨g, -, rfl⟩ | ⟨l, rfl⟩
      · rfl
      · exact absurd hdescription hgrowthText
      · exact absurd hdescription hlineText
    · intro ev hm hdescription
      refine ⟨by rw [hevidence, List.head?_cons], ?_⟩
      rcases hmem hm with rfl | hgrowth | ⟨l, rfl⟩
      · exact absurd hdescription.symm hgrowthText
      · exact hgrowth
      · exact absurd hdescription hlineText'
    · intro _
      rw [hevidence]
      exact List.mem_cons_self ..
    · rintro g rfl
      simp [hevidence]

theorem crashAnalysis_cases {s : ProcessIntelligence} {pid : Pid} {oomKillLines : List String} {f : Finding}
    (hf : crashAnalysis s pid oomKillLines = some f) :
    (exitEvent s pid = none ∧ f.evidence = []) ∨ ∃ exit, exitEvent s pid = some exit ∧
      Cites pid exit (growthBeforeExit s pid exit)
        (oomKillLines.find? fun line => Text.contains (toString pid).toList line.toList) f.evidence := by
  rw [crashAnalysis] at hf
  split at hf
  · rename_i hnone
    obtain ⟨rfl, -⟩ := Finding.new_eq_some_iff.mp hf
    exact .inl ⟨hnone, rfl⟩
  · rename_i exit hexit
    exact .inr ⟨exit, hexit, cites_crashFinding hf⟩

/-- The growth that a finding cites, and the exit it is built on, are events of one generation. -/
structure CitesOneGeneration (s : ProcessIntelligence) (pid : Pid) (f : Finding) : Prop where
  cited : ∀ ev ∈ f.evidence, ev.description = "memory-growth event preceding exit" →
    ∃ exit growth, exitEvent s pid = some exit ∧ growth ∈ s.timelineOf pid ∧ isGrowth growth.kind ∧
      f.evidence.head? = some (exitEvidence pid exit) ∧ ev = growthEvidence pid growth ∧
      growth.startTime = exit.startTime

theorem growth_of_growthBeforeExit {s : ProcessIntelligence} {pid : Pid} {exit growth : TimelineEvent}
    (h : growthBeforeExit s pid exit = some growth) : growth ∈ s.timelineOf pid ∧ isGrowth growth.kind := by
  have hfound := List.find?_some h
  exact ⟨List.mem_reverse.mp (List.mem_of_find?_eq_some h), (of_decide_eq_true hfound).1⟩

/-- After any run whose clock does not go back and that lists no pid twice in a call, a crash analysis
does not mix generations. -/
theorem crash_analysis_cites_one_generation {ticks : List Tick} (hmono : (ticks.map Tick.now).Pairwise (· ≤ ·))
    (hd : ∀ t ∈ ticks, t.Distinct) {pid : Pid} {oomKillLines : List String} {f : Finding}
    (hf : crashAnalysis (afterRun ticks) pid oomKillLines = some f) :
    CitesOneGeneration (afterRun ticks) pid f := by
  constructor
  intro ev hm hcited
  rcases crashAnalysis_cases hf with ⟨-, hnil⟩ | ⟨exit, hexit, hcites⟩
  · rw [hnil] at hm
    cases hm
  · obtain ⟨hhead, growth, hgrowth, hev⟩ := hcites.growths ev hm hcited
    obtain ⟨hmg, hkind⟩ := growth_of_growthBeforeExit hgrowth
    exact ⟨exit, growth, hexit, hmg, hkind, hhead, hev, growthBeforeExit_startTime hmono hd hexit hgrowth⟩

def growthThenExit : List Tick := [sizeTick 0 1000, sizeTick 3600 2000, mockTick 3601 []]

/-- Then its pid goes to another process, of which the same is seen. -/
def pidReused : List Tick :=
  growthThenExit ++
    [mockTick 3602 [snap 1 0 200 0 1000], mockTick 7300 [snap 1 0 200 0 3000], mockTick 7301 []]

theorem crash_analysis_cites_growth_then_exit :
    (((afterRun pidReused).timelineOf 1).filter (isGrowth ·.kind)).map (·.startTime) = [100, 200] ∧
    ∃ f, crashAnalysis (afterRun pidReused) 1 [] = some f ∧ f.title = "Exit preceded by memory growth" ∧
      CitesOneGeneration (afterRun pidReused) 1 f := by
  have hgrowth : (((afterRun pidReused).timelineOf 1).filter (isGrowth ·.kind)).map (·.startTime) = [100, 200] := by
    decide +kernel
  have htitle : (crashAnalysis (afterRun pidReused) 1 []).map (·.title) = some "Exit preceded by memory growth" := by
    decide +kernel
  obtain ⟨f, hf, htitle⟩ := Option.map_eq_some_iff.mp htitle
  exact ⟨hgrowth, f, hf, htitle, crash_analysis_cites_one_generation (by decide)
    (by simp [pidReused, growthThenExit, sizeTick, mockTick_distinct]) hf⟩

def exitsLeft (s : ProcessIntelligence) (pid : Pid) : List TimelineEvent :=
  (s.timelineOf pid).filter (isExited ·.kind)

/-- Growth of the generation that exits last stands before its exit in the timeline. -/
def GrewBeforeLastExit (s : ProcessIntelligence) (pid : Pid) (exit : TimelineEvent) : Prop :=
  ∃ before after, s.timelineOf pid = before ++ exit :: after ∧ (∀ e ∈ after, isExited e.kind = false) ∧
    ∃ growth ∈ before, isGrowth growth.kind ∧ growth.startTime = exit.startTime

/-- The finding is about this exit: it cites no other exit and no growth but that of its generation, and it
cites them where there is a line with the digits of the pid, or growth before the exit. -/
structure IsAboutExit (s : ProcessIntelligence) (pid : Pid) (oomKillLines : List String) (exit : TimelineEvent)
    (f : Finding) : Prop where
  exits : ∀ ev ∈ f.evidence, ev.description = "exit event" → ev = exitEvidence pid exit
  growths : ∀ ev ∈ f.evidence, ev.description = "memory-growth event preceding exit" →
    ∃ growth ∈ s.timelineOf pid, isGrowth growth.kind ∧ growth.startTime = exit.startTime ∧
      ev = growthEvidence pid growth
  line : ∀ line ∈ oomKillLines, Text.contains (toString pid).toList line.toList → exitEvidence pid exit ∈ f.evidence
  grew : GrewBeforeLastExit s pid exit → exitEvidence pid exit ∈ f.evidence ∧
    ∃ ev ∈ f.evidence, ev.description = "memory-growth event preceding exit"

/-- Whatever the lines of the kernel log, a crash analysis is about the exit appended last. -/
def AnalysesLatest (s : ProcessIntelligence) (pid : Pid) : Prop :=
  ∀ exit ∈ (exitsLeft s pid).getLast?, ∀ oomKillLines,
    ∃ f, crashAnalysis s pid oomKillLines = some f ∧ IsAboutExit s pid oomKillLines exit f

/-- The first exit of the pid that the timeline holds is dated as the last one. -/
def ExitsDatedAlike (s : ProcessIntelligence) (pid : Pid) : Prop :=
  (exitsLeft s pid).head?.map (·.observedAt) = (exitsLeft s pid).getLast?.map (·.observedAt)

/-- Where its generation grew before the last exit, some growth is dated no later than the exit, and the last
such growth is, to look at, growth of that generation. -/
def GrowthDatedBeforeExit (s : ProcessIntelligence) (pid : Pid) : Prop :=
  ∀ exit ∈ (exitsLeft s pid).getLast?,
    (GrewBeforeLastExit s pid exit → ∃ e ∈ s.timelineOf pid, isGrowth e.kind ∧ e.observedAt ≤ exit.observedAt) ∧
    ∀ before last after, s.timelineOf pid = before ++ last :: after → isGrowth last.kind →
      last.observedAt ≤ exit.observedAt → (∀ e ∈ after, isGrowth e.kind → exit.observedAt < e.observedAt) →
      ∃ growth ∈ s.timelineOf pid, isGrowth growth.kind ∧ growth.startTime = exit.startTime ∧
        growthEvidence pid last = growthEvidence pid growth

/-- The exits are dated alike, and the first is of the same generation as the last or has no growth before it. -/
def ExitsAlike (s : ProcessIntelligence) (pid : Pid) : Prop :=
  ∀ first ∈ (exitsLeft s pid).head?, ∀ last ∈ (exitsLeft s pid).getLast?, first.observedAt = last.observedAt ∧
    (first.startTime = last.startTime ∨ (crashEventsLeft s pid).head? = some first)

theorem growthBeforeExit_eq_some_iff {s : ProcessIntelligence} {pid : Pid} {exit growth : TimelineEvent} :
    growthBeforeExit s pid exit = some growth ↔
      ∃ before after, s.timelineOf pid = before ++ growth :: after ∧ isGrowth growth.kind ∧
        growth.observedAt ≤ exit.observedAt ∧
        ∀ e ∈ after, isGrowth e.kind → exit.observedAt < e.observedAt := by
  rw [growthBeforeExit, List.find?_eq_some_iff_append]
  simp only [decide_eq_true_iff, List.reverse_eq_append_iff, List.reverse_cons, List.append_assoc,
    List.singleton_append]
  constructor
  · rintro ⟨⟨hkind, hle⟩, after, before, hsplit, hafter⟩
    refine ⟨before.reverse, after.reverse, hsplit, hkind, hle, ?_⟩
    intro e he hgrowth
    have := hafter e (List.mem_reverse.mp he)
    simpa [hgrowth, Int64.not_le] using this
  · rintro ⟨before, after, hsplit, hkind, hle, hafter⟩
    refine ⟨⟨hkind, hle⟩, after.reverse, before.reverse, by simpa using hsplit, ?_⟩
    intro e he
    simp only [Bool.not_eq_true', decide_eq_false_iff_not, not_and, Int64.not_le]
    exact hafter e (List.mem_reverse.mp he)

theorem growthBeforeExit_isSome_iff {s : ProcessIntelligence} {pid : Pid} {exit : TimelineEvent} :
    (growthBeforeExit s pid exit).isSome ↔
      ∃ e ∈ s.timelineOf pid, isGrowth e.kind ∧ e.observedAt ≤ exit.observedAt := by
  simp [growthBeforeExit, List.find?_isSome]

theorem exitEvent_eq_head? (s : ProcessIntelligence) (pid : Pid) : exitEvent s pid = (exitsLeft s pid).head? :=
  List.head?_filter.symm

section Latest
variable {ticks : List Tick} {pid : Pid}

theorem description_of_mem_exitsLeft {e : TimelineEvent} (he : e ∈ exitsLeft (afterRun ticks) pid) :
    e.description = "process " ++ toString pid ++ " exited" := by
  rw [exitsLeft, List.mem_filter, ProcessIntelligence.timelineOf, List.mem_filter, timeline_run] at he
  obtain ⟨⟨hm, hpid⟩, hkind⟩ := he
  have hdescription := congrArg TimelineEvent.description (eq_exitedEvent_of_run (mem_of_mem_rtake hm) hkind)
  have hpid' := of_decide_eq_true hpid
  rw [hdescription]
  simp only [exitedEvent, TimelineEvent.key, hpid']

theorem exitEvidence_eq_iff {e e' : TimelineEvent} (he : e ∈ exitsLeft (afterRun ticks) pid)
    (he' : e' ∈ exitsLeft (afterRun ticks) pid) :
    exitEvidence pid e = exitEvidence pid e' ↔ e.observedAt = e'.observedAt := by
  refine ⟨fun h => congrArg Evidence.collectedAt h, fun hat => ?_⟩
  have hdescription := (description_of_mem_exitsLeft he).trans (description_of_mem_exitsLeft he').symm
  unfold exitEvidence
  rw [hat, hdescription]

theorem AnalysesLatest.exitsDatedAlike (h : AnalysesLatest (afterRun ticks) pid) :
    ExitsDatedAlike (afterRun ticks) pid := by
  rw [ExitsDatedAlike, ← exitEvent_eq_head?]
  cases hlast : (exitsLeft (afterRun ticks) pid).getLast? with
  | none =>
    rw [List.getLast?_eq_none_iff] at hlast
    rw [exitEvent_eq_head?, hlast, List.head?_nil]
  | some last =>
    obtain ⟨f, hf, habout⟩ := h last hlast [toString pid]
    have hcited := habout.line _ (List.mem_singleton_self _) (decide_eq_true (List.infix_refl _))
    rcases crashAnalysis_cases hf with ⟨-, hnil⟩ | ⟨first, hfirst, hcites⟩
    · rw [hnil] at hcited
      cases hcited
    · have heq := hcites.exits _ hcited rfl
      rw [exitEvent_eq_head?] at hfirst
      rw [exitEvent_eq_head?, hfirst, Option.map_some, Option.map_some,
        (exitEvidence_eq_iff (List.mem_of_getLast? hlast) (List.mem_of_head? hfirst)).mp heq]

theorem growthBeforeExit_congr {s : ProcessIntelligence} {e e' : TimelineEvent} (h : e.observedAt = e'.observedAt) :
    growthBeforeExit s pid e = growthBeforeExit s pid e' := by
  rw [growthBeforeExit, growthBeforeExit, h]

theorem cites_last (h : ExitsDatedAlike (afterRun ticks) pid) {last : TimelineEvent}
    (hlast : (exitsLeft (afterRun ticks) pid).getLast? = some last) {oomKillLines : List String} {f : Finding}
    (hf : crashAnalysis (afterRun ticks) pid oomKillLines = some f) :
    Cites pid last (growthBeforeExit (afterRun ticks) pid last)
      (oomKillLines.find? fun line => Text.contains (toString pid).toList line.toList) f.evidence := by
  rw [ExitsDatedAlike, hlast] at h
  obtain ⟨first, hfirst, hat⟩ := Option.map_eq_some_iff.mp h
  have hsame := (exitEvidence_eq_iff (List.mem_of_head? hfirst) (List.mem_of_getLast? hlast)).mpr hat
  rw [← exitEvent_eq_head?] at hfirst
  rcases crashAnalysis_cases hf with ⟨hnone, -⟩ | ⟨exit, hexit, hcites⟩
  · cases hnone.symm.trans hfirst
  · obtain rfl := Option.some.inj (hfirst.symm.trans hexit)
    rw [growthBeforeExit_congr hat] at hcites
    exact ⟨hsame ▸ hcites.exits, hsame ▸ hcites.growths, hsame ▸ hcites.exit, hcites.growth⟩

/-- After any run, a crash analysis is about the exit appended last exactly where the first exit left is dated
like it, and the growth up to that date is of its generation. -/
theorem analysesLatest_iff : AnalysesLatest (afterRun ticks) pid ↔
    ExitsDatedAlike (afterRun ticks) pid ∧ GrowthDatedBeforeExit (afterRun ticks) pid := by
  constructor
  · intro h
    refine ⟨h.exitsDatedAlike, fun last hlast => ?_⟩
    obtain ⟨f, hf, habout⟩ := h last hlast []
    have hcites := cites_last h.exitsDatedAlike hlast hf
    constructor
    · intro hgrew
      obtain ⟨-, ev, hm, hdescription⟩ := habout.grew hgrew
      obtain ⟨-, growth, hgrowth, -⟩ := hcites.growths ev hm hdescription
      exact growthBeforeExit_isSome_iff.mp (Option.isSome_of_mem hgrowth)
    · intro before growth after hsplit hkind hle hafter
      have hfound := growthBeforeExit_eq_some_iff.mpr ⟨before, after, hsplit, hkind, hle, hafter⟩
      exact habout.growths _ (hcites.growth growth hfound) rfl
  · rintro ⟨hdated, hgrown⟩ last hlast oomKillLines
    obtain ⟨hbefore, hnewest⟩ := hgrown last hlast
    obtain ⟨f, hf, -⟩ := concludes_crashAnalysis (afterRun ticks) pid oomKillLines
    have hcites := cites_last hdated hlast hf
    refine ⟨f, hf, hcites.exits, ?_, ?_, ?_⟩
    · intro ev hm hdescription
      obtain ⟨-, growth, hgrowth, rfl⟩ := hcites.growths ev hm hdescription
      obtain ⟨before, after, hsplit, hkind, hle, hafter⟩ := growthBeforeExit_eq_some_iff.mp hgrowth
      exact hnewest before growth after hsplit hkind hle hafter
    · intro line hm hcontains
      exact hcites.exit (.inr (List.find?_isSome.mpr ⟨line, hm, hcontains⟩))
    · intro hgrew
      obtain ⟨growth, hgrowth⟩ := Option.isSome_iff_exists.mp (growthBeforeExit_isSome_iff.mpr (hbefore hgrew))
      exact ⟨hcites.exit (.inl (Option.isSome_of_mem hgrowth)), _, hcites.growth growth hgrowth, rfl⟩

theorem mem_crashEventsLeft {s : ProcessIntelligence} {e : TimelineEvent} :
    e ∈ crashEventsLeft s pid ↔ e ∈ s.timelineOf pid ∧ (isGrowth e.kind ∨ isExited e.kind) := by
  simp [crashEventsLeft, ProcessIntelligence.timelineOf, isCrashEvent, and_assoc]

theorem growth_of_grew (hmono : (ticks.map Tick.now).Pairwise (· ≤ ·)) {exit : TimelineEvent}
    (hgrew : GrewBeforeLastExit (afterRun ticks) pid exit) :
    ∃ e ∈ (afterRun ticks).timelineOf pid, isGrowth e.kind ∧ e.observedAt ≤ exit.observedAt := by
  obtain ⟨before, after, hsplit, -, growth, hm, hkind, -⟩ := hgrew
  have hsorted : ((afterRun ticks).timelineOf pid).Pairwise _ := (timeline_sorted hmono).filter _
  rw [hsplit] at hsorted ⊢
  exact ⟨growth, List.mem_append_left _ hm, hkind,
    (List.pairwise_append.mp hsorted).2.2 growth hm exit (List.mem_cons_self ..)⟩

theorem growth_before_first (hmono : (ticks.map Tick.now).Pairwise (· ≤ ·)) {first : TimelineEvent}
    (hexit : exitEvent (afterRun ticks) pid = some first)
    (hhead : (crashEventsLeft (afterRun ticks) pid).head? ≠ some first) :
    ∃ e ∈ (afterRun ticks).timelineOf pid, isGrowth e.kind ∧ e.observedAt ≤ first.observedAt := by
  rw [exitEvent_eq] at hexit
  obtain ⟨-, before, after, hsplit, hbefore⟩ := List.find?_eq_some_iff_append.mp hexit
  cases before with
  | nil => exact absurd (by rw [hsplit, List.nil_append, List.head?_cons]) hhead
  | cons e rest =>
    have hm : e ∈ crashEventsLeft (afterRun ticks) pid := by simp [hsplit]
    obtain ⟨hmt, hkind⟩ := mem_crashEventsLeft.mp hm
    have hnot : isExited e.kind = false := by simpa using hbefore e (List.mem_cons_self ..)
    refine ⟨e, hmt, hkind.resolve_right (by simp [hnot]), ?_⟩
    have hsorted : (crashEventsLeft (afterRun ticks) pid).Pairwise _ := (timeline_sorted hmono).filter _
    rw [hsplit] at hsorted
    exact (List.pairwise_append.mp hsorted).2.2 e (List.mem_cons_self ..) first (List.mem_cons_self ..)

/-- A growth left in the timeline and dated no later than the first exit is of that exit's generation. -/
theorem startTime_of_growth_left (hmono : (ticks.map Tick.now).Pairwise (· ≤ ·)) (hd : ∀ t ∈ ticks, t.Distinct)
    {first growth : TimelineEvent} (hexit : exitEvent (afterRun ticks) pid = some first)
    (hgrowth : growth ∈ (afterRun ticks).timelineOf pid) (hkind : isGrowth growth.kind)
    (hle : growth.observedAt ≤ first.observedAt) : growth.startTime = first.startTime := by
  obtain ⟨older, hlog⟩ := crashLog_eq ticks pid
  have hcoherent := (crashOrder_run hmono hd pid).coherent
  rw [hlog] at hcoherent
  rw [exitEvent_eq] at hexit
  exact startTime_eq_of_coherent hcoherent hexit (mem_crashEventsLeft.mpr ⟨hgrowth, .inl hkind⟩) hkind hle

/-- Where the first exit is the first event left, no growth left is dated before it. -/
theorem no_growth_before_head (hmono : (ticks.map Tick.now).Pairwise (· ≤ ·)) (hd : ∀ t ∈ ticks, t.Distinct)
    {first growth : TimelineEvent} (hexit : exitEvent (afterRun ticks) pid = some first)
    (hhead : (crashEventsLeft (afterRun ticks) pid).head? = some first)
    (hgrowth : growth ∈ (afterRun ticks).timelineOf pid) (hkind : isGrowth growth.kind) :
    ¬ growth.observedAt ≤ first.observedAt := by
  intro hle
  obtain ⟨older, hlog⟩ := crashLog_eq ticks pid
  have hcoherent := (crashOrder_run hmono hd pid).coherent
  have hleft := mem_crashEventsLeft.mpr ⟨hgrowth, .inl hkind⟩
  obtain ⟨rest, hrest⟩ := List.head?_eq_some_iff.mp hhead
  rw [exitEvent_eq] at hexit
  have hexited := List.find?_some hexit
  rw [hlog, hrest, ← List.nil_append (first :: rest)] at hcoherent
  rw [hrest, ← List.nil_append (first :: rest)] at hleft
  cases before_of_coherent hcoherent hexited hleft hkind hle

theorem ExitsAlike.exitsDatedAlike {s : ProcessIntelligence} (h : ExitsAlike s pid) : ExitsDatedAlike s pid := by
  rw [ExitsDatedAlike]
  cases hfirst : (exitsLeft s pid).head? with
  | none => rw [List.head?_eq_none_iff.mp hfirst, List.getLast?_nil, Option.map_none]
  | some first =>
    have hlast := List.getLast?_eq_some_getLast (List.ne_nil_of_mem (List.mem_of_head? hfirst))
    rw [hlast, Option.map_some, Option.map_some, (h first hfirst _ hlast).1]

theorem exitsAlike_of_dated (hmono : (ticks.map Tick.now).Pairwise (· ≤ ·)) (hd : ∀ t ∈ ticks, t.Distinct)
    (hdated : ExitsDatedAlike (afterRun ticks) pid) (hgrown : GrowthDatedBeforeExit (afterRun ticks) pid) :
    ExitsAlike (afterRun ticks) pid := by
  intro first hfirst last hlast
  have hat : first.observedAt = last.observedAt := by
    rw [ExitsDatedAlike, Option.mem_def.mp hfirst, Option.mem_def.mp hlast] at hdated
    exact Option.some.inj hdated
  refine ⟨hat, or_iff_not_imp_right.mpr fun hhead => ?_⟩
  have hexit := (exitEvent_eq_head? (afterRun ticks) pid).trans hfirst
  obtain ⟨newest, hnewest⟩ := Option.isSome_iff_exists.mp
    (growthBeforeExit_isSome_iff.mpr (growth_before_first hmono hexit hhead))
  rw [growthBeforeExit_congr hat] at hnewest
  obtain ⟨before, after, hsplit, hkind, hle, hafter⟩ := growthBeforeExit_eq_some_iff.mp hnewest
  obtain ⟨growth, hm, hgrowth, hst, hlooks⟩ := (hgrown last hlast).2 before newest after hsplit hkind hle hafter
  have hdate : newest.observedAt = growth.observedAt := congrArg Evidence.collectedAt hlooks
  rw [← hst]
  exact (startTime_of_growth_left hmono hd hexit hm hgrowth (by rw [← hdate, hat]; exact hle)).symm

theorem ExitsAlike.growthDatedBeforeExit (hmono : (ticks.map Tick.now).Pairwise (· ≤ ·))
    (hd : ∀ t ∈ ticks, t.Distinct) (halike : ExitsAlike (afterRun ticks) pid) :
    GrowthDatedBeforeExit (afterRun ticks) pid := by
  intro last hlast
  refine ⟨growth_of_grew hmono, ?_⟩
  intro before newest after hsplit hkind hle _
  have hfirst := List.head?_eq_some_head (List.ne_nil_of_mem (List.mem_of_getLast? hlast))
  obtain ⟨hat, hsame⟩ := halike _ hfirst last hlast
  have hexit := (exitEvent_eq_head? (afterRun ticks) pid).trans hfirst
  have hm : newest ∈ (afterRun ticks).timelineOf pid := by simp [hsplit]
  rw [← hat] at hle
  rcases hsame with hst | hhead
  · exact ⟨newest, hm, hkind, (startTime_of_growth_left hmono hd hexit hm hkind hle).trans hst, rfl⟩
  · cases no_growth_before_head hmono hd hexit hhead hm hkind hle

/-- After a run whose clock does not go back and that lists no pid twice in a call, the exits alone decide,
and whether there is growth before the first of them. -/
theorem analysesLatest_iff_exitsAlike (hmono : (ticks.map Tick.now).Pairwise (· ≤ ·))
    (hd : ∀ t ∈ ticks, t.Distinct) :
    AnalysesLatest (afterRun ticks) pid ↔ ExitsAlike (afterRun ticks) pid := by
  rw [analysesLatest_iff]
  exact ⟨fun ⟨hdated, hgrown⟩ => exitsAlike_of_dated hmono hd hdated hgrown,
    fun halike => ⟨halike.exitsDatedAlike, halike.growthDatedBeforeExit hmono hd⟩⟩

end Latest

/-- After any run, `crash_analysis` is about the latest exit of a pid exactly where the timeline holds only exits
dated like it, and the growth up to them is of its generation. Where the clock does not go back the exits decide. -/
theorem crash_analysis_of_latest_iff (pid : Pid) :
    (∀ ticks, AnalysesLatest (afterRun ticks) pid ↔
      ExitsDatedAlike (afterRun ticks) pid ∧ GrowthDatedBeforeExit (afterRun ticks) pid) ∧
    ∀ ticks, (ticks.map Tick.now).Pairwise (· ≤ ·) → (∀ t ∈ ticks, t.Distinct) →
      (AnalysesLatest (afterRun ticks) pid ↔ ExitsAlike (afterRun ticks) pid) :=
  ⟨fun _ => analysesLatest_iff, fun _ hmono hd => analysesLatest_iff_exitsAlike hmono hd⟩

def goneTogether : List Tick :=
  [mockTick 1000 [snap 1 0 100 0 1000], mockTick 1005 [snap 1 0 200 0 1000], mockTick 1005 []]

theorem crash_analysis_of_growth_then_exit :
    AnalysesLatest (afterRun growthThenExit) 1 ∧ AnalysesLatest (afterRun goneTogether) 1 := by
  obtain ⟨-, hiff⟩ := crash_analysis_of_latest_iff 1
  constructor
  · apply (hiff growthThenExit (by decide) (by simp [growthThenExit, sizeTick, mockTick_distinct])).mpr
    have hexits : exitsLeft (afterRun growthThenExit) 1 = [exitedEvent 3601 (1, 100)] := by decide +kernel
    rw [ExitsAlike, hexits]
    rintro first ⟨⟩ last ⟨⟩
    exact ⟨rfl, .inl rfl⟩
  · apply (hiff goneTogether (by decide) (by simp [goneTogether, mockTick_distinct])).mpr
    have hexits : exitsLeft (afterRun goneTogether) 1 = [exitedEvent 1005 (1, 100), exitedEvent 1005 (1, 200)] := by
      decide +kernel
    have hhead : (crashEventsLeft (afterRun goneTogether) 1).head? = some (exitedEvent 1005 (1, 100)) := by
      decide +kernel
    rw [ExitsAlike, hexits]
    rintro first ⟨⟩ last ⟨⟩
    exact ⟨rfl, .inr hhead⟩

/-- Two generations of a pid, each gone five seconds after it was seen. -/
def twoGenerations : List Tick :=
  [mockTick 1000 [snap 1 0 100 0 1000], mockTick 1005 [], mockTick 1010 [snap 1 0 200 0 1000], mockTick 1015 []]

/-- The analysis after the second exit still cites the first. -/
theorem crash_analysis_of_older_exit :
    let lines := ["Out of memory: Killed process 1 (proc-1)"]
    (crashAnalysis (afterRun twoGenerations) 1 lines).map (fun f => f.evidence.head?) =
        some (some (exitEvidence 1 (exitedEvent 1005 (1, 100)))) ∧
      (exitsLeft (afterRun twoGenerations) 1).getLast? = some (exitedEvent 1015 (1, 200)) ∧
      ¬ AnalysesLatest (afterRun twoGenerations) 1 := by
  intro lines
  have hcited : (crashAnalysis (afterRun twoGenerations) 1 lines).map (fun f => f.evidence.head?) =
      some (some (exitEvidence 1 (exitedEvent 1005 (1, 100)))) := by decide +kernel
  have hlatest : (exitsLeft (afterRun twoGenerations) 1).getLast? = some (exitedEvent 1015 (1, 200)) := by
    decide +kernel
  refine ⟨hcited, hlatest, fun h => ?_⟩
  obtain ⟨f, hf, habout⟩ := h _ hlatest lines
  rw [hf, Option.map_some, Option.some_inj] at hcited
  have hdate := congrArg Evidence.collectedAt (habout.exits _ (List.mem_of_head? hcited) rfl)
  exact absurd hdate (by decide)

end ProcessExplorer.Investigation
