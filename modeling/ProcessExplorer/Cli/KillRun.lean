import ProcessExplorer.Cli.Kill
import ProcessExplorer.Control.KillSafety
import ProcessExplorer.Intelligence.KernelLog

/-! A run of sher kill beside a kernel that starts and ends processes and a user who takes any time to answer. -/
namespace ProcessExplorer.Cli
open Library Model Telemetry Telemetry.Linux Intelligence Gui
open Control (holder statRead)

/-- Whatever happens on the machine during the run. -/
inductive Moment where
  | started (process : HistoryKey)
  | ended (process : HistoryKey)
  /-- A question with its answer, and the processes that a signal reached by it. -/
  | answered (r : Request) (answer : r.Answer) (reached : List HistoryKey)

/-- The changes of the process table. -/
def tableOf (log : List Moment) : List Control.Event :=
  log.filterMap fun
    | .started process => some (.started process)
    | .ended process => some (.ended process)
    | .answered _ _ _ => none

def dialogueOf (log : List Moment) : Dialogue :=
  log.filterMap fun
    | .answered r answer _ => some ⟨r, answer⟩
    | _ => none

def deliveries (log : List Moment) : List HistoryKey :=
  log.flatMap fun
    | .answered _ _ reached => reached
    | _ => []

def accessesOf (t : Dialogue) : Interaction.Transcript Access Access.Answer :=
  t.filterMap fun
    | ⟨.sys (.proc a), answer⟩ => some ⟨a, answer⟩
    | _ => none

/-- What may happen next: whatever the kernel may do, and any answer of the user. -/
def Allowed (root : String) (log : List Moment) : Moment → Prop
  | .started process => Control.Possible root (tableOf log) (.started process)
  | .ended process => Control.Possible root (tableOf log) (.ended process)
  | .answered (.sys call) answer reached => Control.Answers root (tableOf log) call answer reached
  | .answered (.prompt _) _ reached => reached = []
  | .answered .readLine _ reached => reached = []
  | .answered (.println _ _) _ reached => reached = []

section Log
variable {root : String} {log part before after : List Moment} {t t₁ t₂ : Dialogue}

@[simp] theorem tableOf_append (l r : List Moment) : tableOf (l ++ r) = tableOf l ++ tableOf r := List.filterMap_append

@[simp] theorem dialogueOf_append (l r : List Moment) : dialogueOf (l ++ r) = dialogueOf l ++ dialogueOf r :=
  List.filterMap_append

@[simp] theorem deliveries_append (l r : List Moment) : deliveries (l ++ r) = deliveries l ++ deliveries r :=
  List.flatMap_append

@[simp] theorem deliveries_answered (r : Request) (answer : r.Answer) (reached : List HistoryKey)
    (rest : List Moment) : deliveries (.answered r answer reached :: rest) = reached ++ deliveries rest := rfl

@[simp] theorem tableOf_answered (r : Request) (answer : r.Answer) (reached : List HistoryKey) (rest : List Moment) :
    tableOf (.answered r answer reached :: rest) = tableOf rest := rfl

theorem split_dialogue (h : dialogueOf log = t₁ ++ t₂) :
    ∃ l₁ l₂, log = l₁ ++ l₂ ∧ dialogueOf l₁ = t₁ ∧ dialogueOf l₂ = t₂ := by
  obtain ⟨l₁, l₂, rfl, h₁, h₂⟩ := List.filterMap_eq_append_iff.mp h
  exact ⟨l₁, l₂, rfl, h₁, h₂⟩

theorem split_answer {r : Request} {answer : r.Answer} (h : dialogueOf log = t ++ ⟨r, answer⟩ :: t₁) :
    ∃ before reached after, log = before ++ .answered r answer reached :: after ∧ dialogueOf before = t ∧
      dialogueOf after = t₁ := by
  obtain ⟨l₁, l₂, rfl, rfl, h₂⟩ := split_dialogue h
  obtain ⟨skipped, m, after, rfl, hskipped, hm, hafter⟩ := List.filterMap_eq_cons_iff.mp h₂
  have hnone : dialogueOf skipped = [] := List.filterMap_eq_nil_iff.mpr hskipped
  cases m with
  | answered r answer reached =>
    cases hm
    exact ⟨l₁ ++ skipped, reached, after, by simp, by simp [hnone], hafter⟩
  | _ => cases hm

theorem possible_tableOf (h : Justified (Allowed root) log) : Justified (Control.Possible root) (tableOf log) := by
  induction log using List.reverseRecOn with
  | nil => exact .nil
  | append_singleton log m ih =>
    rw [tableOf_append]
    cases m with
    | started process => exact (ih h.of_append).concat h.last
    | ended process => exact (ih h.of_append).concat h.last
    | answered r answer reached => simpa [tableOf] using ih h.of_append

theorem lawful_tableOf (h : Justified (Allowed root) log) : SlotLog.Lawful Control.slots (tableOf log) :=
  (possible_tableOf h).mono fun _ _ hp => hp.1

/-- Only kill(2) reaches anyone. -/
theorem deliveries_eq_nil (h : Justified (Allowed root) log) (hsub : part ⊆ log)
    (hquiet : ∀ x ∈ dialogueOf part, ¬ x.1.IsKill) : deliveries part = [] := by
  apply List.flatMap_eq_nil_iff.mpr
  intro m hm
  cases m with
  | answered r answer reached =>
    obtain ⟨past, rest, rfl⟩ := List.append_of_mem (hsub hm)
    have hallowed := h past _ rest rfl
    have hr : ¬ r.IsKill := hquiet ⟨r, answer⟩ (List.mem_filterMap.mpr ⟨_, hm, rfl⟩)
    match r, answer, hallowed, hr with
    | .prompt _, _, hallowed, _ => exact hallowed
    | .readLine, _, hallowed, _ => exact hallowed
    | .println _ _, _, hallowed, _ => exact hallowed
    | .sys (.proc (.readFile path)), _, hallowed, _ => exact hallowed.1
    | .sys (.proc (.readLink path)), _, hallowed, _ => exact hallowed
    | .sys (.proc (.readDir path)), _, hallowed, _ => exact hallowed
    | .sys (.proc (.metadata path)), _, hallowed, _ => exact hallowed
    | .sys (.kill pid signal), _, _, hr => exact absurd ⟨pid, signal, rfl⟩ hr
  | _ => rfl

/-- A stat line that is read shows who has the pid at that moment, and reaches no one. -/
theorem holder_of_stat {adapter : LinuxAdapter} {pid : Pid} {a : (statRead adapter pid).Answer}
    {reached : List HistoryKey} {startTime : UInt64}
    (h : Allowed adapter.root log (.answered (.sys (statRead adapter pid)) a reached))
    (hshows : Control.StatShows adapter pid a startTime) :
    reached = [] ∧ holder (tableOf log) pid = some startTime := by
  obtain ⟨content, stat, hdecoded, hparse, rfl⟩ := hshows
  exact ⟨h.1, h.2 pid content stat rfl hdecoded hparse⟩

end Log

/-- How a process came to be signalled: what the refresh showed was in the prompt, the user consented, and a live
read found it again. It had its pid all the while, and lost it at most after that read. -/
def Signalled (adapter : LinuxAdapter) (lower : Lowercase) (call : Call) (pid : Pid) (signal : Signal) (yes : Bool)
    (log : List Moment) (process : HistoryKey) : Prop :=
  ∃ seen since consent a between after shown,
    log = seen ++ since ++ (consent ++ .answered (.sys (statRead adapter pid)) a [] ::
      (between ++ .answered (.sys (.kill pid signal)) (.ok ()) [process] :: after)) ∧
    (∃ files intel, dialogueOf (seen ++ since) = filesOf files ∧
      (refreshOver adapter .new call).Reaches files (.pure (some (intel, .ok ()))) ∧
      intel.process pid = some shown) ∧
    Consent lower yes (killPrompt signal shown.name pid) (dialogueOf consent) ∧
    (∀ more, more <+: since ++ consent → holder (tableOf (seen ++ more)) pid = some shown.startTime) ∧
    process.1 = pid ∧
    (process.2 ≠ shown.startTime → [.ended (pid, shown.startTime), .started process].Sublist (tableOf between))

section Safety
variable {adapter : LinuxAdapter} {lower : Lowercase} {call : Call} {intel : ProcessIntelligence} {pid : Pid}
  {signal : Signal} {yes : Bool} {shown : ProcessSnapshot} {files : Interaction.Transcript Access Access.Answer}

/-- What a fresh service has in its table, it has read. -/
theorem found_in_refresh (honce : ListsOnce adapter files)
    (hrun : (refreshOver adapter .new call).Reaches files (.pure (some (intel, .ok ()))))
    (hshown : intel.process pid = some shown) :
    ∃ before after, ∃ a : (statRead adapter pid).Answer,
      files = before ++ ⟨.readFile (procPath adapter.root pid "stat"), a⟩ :: after ∧
      Control.StatShows adapter pid a shown.startTime := by
  obtain ⟨answers, hresult, hbacked⟩ := refreshOver_eq_refreshAt honce hrun
  have hintel : intel = afterRun [call.tick answers] := (Prod.mk.inj hresult).1
  have hlive : (afterRun [call.tick answers]).Live (pid, shown.startTime) := ⟨shown, hintel ▸ hshown, rfl⟩
  obtain ⟨t, ht, hobs⟩ := observed_of_live (by simpa using hbacked.distinct) hlive
  obtain rfl := List.mem_singleton.mp ht
  obtain ⟨pids, read, hl, hm, hread, hst⟩ := observes_iff.mp hobs
  obtain ⟨part, ⟨before, after, hpart⟩, hreaches⟩ := (hbacked.answered pids hl pid hm).process
  rw [hread] at hreaches
  obtain ⟨a, content, stat, later, rfl, hdecoded, hparse, hstat⟩ := adapter.process_startTime pid hreaches
  exact ⟨before, later ++ after, a, by simp [← hpart], content, stat, hdecoded, hparse, hstat.symm.trans hst⟩

/-- A run that came to kill(2) reaches the process that has the pid then, and no other. -/
theorem signalled_of_kill {log : List Moment} {consent : Dialogue} {live : ProcessSnapshot}
    {reads : Interaction.Transcript Access Access.Answer} {answer : Except Errno Unit}
    (h : Justified (Allowed adapter.root) log) (honce : ListsOnce adapter files)
    (hdialogue : dialogueOf log =
      filesOf files ++ (consent ++ callsOf (accesses reads ++ [⟨.kill pid signal, answer⟩])))
    (hfiles : (refreshOver adapter .new call).Reaches files (.pure (some (intel, .ok ()))))
    (hshown : intel.process pid = some shown) (hconsent : Consent lower yes (killPrompt signal shown.name pid) consent)
    (hlive : (adapter.process pid).run.Reaches reads (.pure (.ok live))) (hstart : live.startTime = shown.startTime) :
    (answer = .ok () → ∃ process, deliveries log = [process] ∧
      Signalled adapter lower call pid signal yes log process) ∧
    (answer ≠ .ok () → deliveries log = []) := by
  obtain ⟨later, a, rfl, hshows⟩ : ∃ later, ∃ a : (statRead adapter pid).Answer,
      reads = ⟨.readFile (procPath adapter.root pid "stat"), a⟩ :: later ∧
      Control.StatShows adapter pid a shown.startTime := by
    obtain ⟨a, content, stat, later, rfl, hdecoded, hparse, hstat⟩ := adapter.process_startTime pid hlive
    exact ⟨later, a, rfl, content, stat, hdecoded, hparse, hstat.symm.trans hstart⟩
  have hcalls : dialogueOf log = filesOf files ++ (consent ++ ⟨.sys (statRead adapter pid), a⟩ ::
      (filesOf later ++ [⟨.sys (.kill pid signal), answer⟩])) := by
    rw [hdialogue, callsOf, List.map_append, ← callsOf, callsOf_accesses]
    rfl
  obtain ⟨looked, l, rfl, hlooked, hrest⟩ := split_dialogue hcalls
  obtain ⟨asked, r, l, rfl, rfl, hcall⟩ := split_answer hrest
  obtain ⟨between, reached, after, rfl, hbetween, hafter⟩ := split_answer hcall
  obtain ⟨rfl, hheld⟩ := holder_of_stat (h (looked ++ asked) (.answered (.sys (statRead adapter pid)) a r)
    (between ++ .answered (.sys (.kill pid signal)) answer reached :: after) (by simp)) hshows
  have hkill := h (looked ++ asked ++ .answered (.sys (statRead adapter pid)) a [] :: between)
    (.answered (.sys (.kill pid signal)) answer reached) after (by simp)
  have hdeliveries : deliveries (looked ++ (asked ++ .answered (.sys (statRead adapter pid)) a [] ::
      (between ++ .answered (.sys (.kill pid signal)) answer reached :: after))) = reached := by
    have hlooked' : deliveries looked = [] :=
      deliveries_eq_nil h (by simp) fun x hx => not_isKill_filesOf (hlooked ▸ hx)
    have hasked' : deliveries asked = [] :=
      deliveries_eq_nil h (fun m hm => by simp [hm]) fun x => hconsent.not_isKill
    have hbetween' : deliveries between = [] :=
      deliveries_eq_nil h (fun m hm => by simp [hm]) fun x hx => not_isKill_filesOf (hbetween ▸ hx)
    have hafter' : deliveries after = [] :=
      deliveries_eq_nil h (fun m hm => by simp [hm]) (by simp [hafter])
    simp [hlooked', hasked', hbetween', hafter']
  have hall : Justified (Allowed adapter.root) (looked ++ asked ++ .answered (.sys (statRead adapter pid)) a [] ::
      between ++ .answered (.sys (.kill pid signal)) answer reached :: after) := by simpa using h
  have hpos : 0 < pid := Control.holder_pos (possible_tableOf hall.of_append.of_append) hheld
  rw [hdeliveries]
  refine ⟨?_, fun hne => ?_⟩
  · rintro rfl
    obtain ⟨startTime, hnow, rfl⟩ : ∃ startTime, holder _ pid = some startTime ∧ reached = [(pid, startTime)] := by
      simpa only [Allowed, Control.Answers, if_pos hpos] using hkill
    obtain ⟨before, rest, b, hsplit, hfound⟩ := found_in_refresh honce hfiles hshown
    have hstats : dialogueOf looked = filesOf before ++ ⟨.sys (statRead adapter pid), b⟩ :: filesOf rest := by
      rw [hlooked, hsplit, filesOf, List.map_append]
      rfl
    obtain ⟨seen, r, since, rfl, -, -⟩ := split_answer hstats
    obtain ⟨rfl, hthen⟩ := holder_of_stat (h seen _ _ (List.append_assoc ..)) hfound
    refine ⟨(pid, startTime), rfl, seen, .answered (.sys (statRead adapter pid)) b [] :: since, asked, a, between, after,
      shown, rfl, ⟨files, intel, hlooked, hfiles, hshown⟩, hconsent, ?_, rfl, fun hne => ?_⟩
    · rintro more ⟨later, hmore⟩
      have hsplit : tableOf (seen ++ .answered (.sys (statRead adapter pid)) b [] :: since ++ asked) =
          tableOf seen ++ tableOf more ++ tableOf later := by
        rw [List.append_assoc, ← hmore]
        simp
      have hlawful := lawful_tableOf hall.of_append.of_append
      rw [hsplit] at hlawful hheld
      rw [tableOf_append]
      exact SlotLog.holder_throughout hlawful hthen hheld
    · have hlawful := lawful_tableOf hall.of_append
      rw [tableOf_append, tableOf_answered] at hlawful hnow
      obtain ⟨e₁, e₂, h₁, h₂, hsub⟩ := SlotLog.exchanged_between hlawful hheld hnow hne
      obtain rfl : e₁ = .ended (pid, shown.startTime) := by cases e₁ <;> simp_all [Control.slots, Prod.ext_iff]
      obtain rfl : e₂ = .started (pid, startTime) := by cases e₂ <;> simp_all [Control.slots, Prod.ext_iff]
      exact hsub
  · cases answer with
    | error e => exact hkill
    | ok => exact absurd rfl hne

theorem exitCode_called (processName : String) (result : Result Unit) :
    (KillOutcome.called processName result).exitCode = 0 ↔ result = .ok () := by
  cases result <;> simp [KillOutcome.exitCode]

theorem finished_call {p : Interaction SysCall SysCall.Answer (Result Unit)} {processName : String}
    {outcome : KillOutcome}
    (h : (onKernel p >>= fun result => .pure (some (.called processName result)) : Session (Option KillOutcome)) =
      .pure (some outcome)) : ∃ result, p = .pure result ∧ outcome = .called processName result := by
  cases p with
  | pure result =>
    cases h
    exact ⟨result, rfl, rfl⟩
  | ask q next => cases h

theorem accessesOf_filesOf (files : Interaction.Transcript Access Access.Answer) (t : Dialogue) :
    accessesOf (filesOf files ++ t) = files ++ accessesOf t := by
  rw [accessesOf, List.filterMap_append, filesOf, List.filterMap_map]
  exact congrArg (· ++ _) List.filterMap_some

/-- Before the outcome is told. -/
theorem attempt_reaches_shown {log : List Moment} {rest : Session (Option KillOutcome)}
    (h : Justified (Allowed adapter.root) log)
    (hrun : (attemptKill adapter lower call pid signal yes).Reaches (dialogueOf log) rest)
    (honce : ListsOnce adapter (accessesOf (dialogueOf log))) :
    (∀ process ∈ deliveries log, deliveries log = [process] ∧
      Signalled adapter lower call pid signal yes log process) ∧
    ∀ outcome, rest = .pure (some outcome) → (outcome.exitCode = 0 ↔ deliveries log ≠ []) := by
  rcases reaches_attemptKill hrun with ⟨files, intel, shown, consent, calls, p, hdialogue, hfiles, hshown, hconsent, hcalls,
    rfl⟩ | ⟨hquiet, hfailed⟩
  · have hfirst : ListsOnce adapter files := by
      rw [hdialogue, accessesOf_filesOf] at honce
      exact honce.of_infix (List.prefix_append _ _).isInfix
    by_cases hkill : ∃ x ∈ calls, x.1.IsKill
    · obtain ⟨reads, live, answer, rfl, -, hlive, hstart⟩ := kill_after_live_read hcalls hkill
      obtain ⟨hok, herror⟩ := signalled_of_kill h hfirst hdialogue hfiles hshown hconsent hlive hstart
      refine ⟨fun process hp => ?_, fun outcome hend => ?_⟩
      · by_cases hanswer : answer = .ok ()
        · obtain ⟨other, hall, hsignalled⟩ := hok hanswer
          obtain rfl : process = other := by simpa [hall] using hp
          exact ⟨hall, hsignalled⟩
        · simp [herror hanswer] at hp
      · obtain ⟨result, rfl, rfl⟩ := finished_call hend
        have hlast : ⟨.kill pid signal, .ok ()⟩ ∈ accesses reads ++ [⟨.kill pid signal, answer⟩] ↔ answer = .ok () := by
          rw [List.mem_append, or_iff_right fun hm => not_isKill_of_mem_accesses hm ⟨pid, signal, rfl⟩]
          simp [eq_comm]
        rw [exitCode_called, result_of_kill hcalls, hlast]
        by_cases hanswer : answer = .ok ()
        · obtain ⟨process, hall, -⟩ := hok hanswer
          simp [hanswer, hall]
        · simp [hanswer, herror hanswer]
    · have hnone : deliveries log = [] := by
        refine deliveries_eq_nil h (List.Subset.refl _) fun x hx => ?_
        rw [hdialogue] at hx
        rcases List.mem_append.mp hx with hx | hx
        · exact not_isKill_filesOf hx
        · rcases List.mem_append.mp hx with hx | hx
          · exact hconsent.not_isKill hx
          · obtain ⟨y, hy, rfl⟩ := List.mem_map.mp hx
            rintro ⟨pid, signal, hk⟩
            exact hkill ⟨y, hy, pid, signal, Request.sys.inj hk⟩
      refine ⟨by simp [hnone], fun outcome hend => ?_⟩
      obtain ⟨result, rfl, rfl⟩ := finished_call hend
      rw [exitCode_called, result_of_kill hcalls]
      simp only [hnone, ne_eq, not_true_eq_false, iff_false]
      exact fun hm => hkill ⟨_, hm, pid, signal, rfl⟩
  · have hnone : deliveries log = [] := deliveries_eq_nil h (List.Subset.refl _) hquiet
    refine ⟨by simp [hnone], fun outcome hend => ?_⟩
    simp [hnone, hfailed _ hend outcome rfl]

theorem Signalled.append {log : List Moment} {process : HistoryKey}
    (h : Signalled adapter lower call pid signal yes log process) (later : List Moment) :
    Signalled adapter lower call pid signal yes (log ++ later) process := by
  obtain ⟨seen, since, consent, a, between, after, shown, rfl, hall⟩ := h
  exact ⟨seen, since, consent, a, between, after ++ later, shown, by simp, hall⟩

theorem accessesOf_append (t t' : Dialogue) : accessesOf (t ++ t') = accessesOf t ++ accessesOf t' :=
  List.filterMap_append

variable {texts : Texts} {json : Bool}

/-- Telling the outcome is one line. -/
theorem reaches_tell {outcome : Option KillOutcome} {t : Dialogue} {rest : Session (Option KillReport)}
    (h : (tell texts pid signal json outcome).Reaches t rest) :
    (∀ x ∈ t, ¬ x.1.IsKill) ∧ ∀ report, rest = .pure (some report) → outcome = some report.outcome := by
  cases outcome with
  | none =>
    obtain ⟨rfl, rfl⟩ := h.of_pure
    exact ⟨by simp, by rintro _ ⟨⟩⟩
  | some outcome =>
    cases h with
    | refl => exact ⟨by simp, by rintro _ ⟨⟩⟩
    | answered _ _ told h =>
      obtain ⟨rfl, rfl⟩ := h.of_pure
      refine ⟨by simp, ?_⟩
      rintro _ ⟨⟩
      rfl

end Safety

/-- However long the user takes and whatever the kernel does meanwhile, a signal goes to the process of the prompt
after a yes, or to one that took its pid over after the live read; and the exit code says whether it went out, if
the last line could be written. -/
theorem kill_reaches_shown {adapter : LinuxAdapter} {lower : Lowercase} {texts : Texts} {call : Call} {pid : Pid}
    {signal : Signal} {yes json : Bool} {log : List Moment} {rest : Session (Option KillReport)}
    (h : Justified (Allowed adapter.root) log)
    (hrun : (sherKill adapter lower texts call pid signal yes json).Reaches (dialogueOf log) rest)
    (honce : ListsOnce adapter (accessesOf (dialogueOf log))) :
    (∀ process ∈ deliveries log, deliveries log = [process] ∧
      Signalled adapter lower call pid signal yes log process) ∧
    ∀ report, rest = .pure (some report) → (report.exitCode = 0 ↔ deliveries log ≠ [] ∧ report.told) := by
  rcases hrun.bind_cases with ⟨q, next, hp, rfl⟩ | ⟨t₁, t₂, outcome, hdialogue, hp, htell⟩
  · exact ⟨(attempt_reaches_shown h hp honce).1, by rintro _ ⟨⟩⟩
  · obtain ⟨log, later, rfl, rfl, rfl⟩ := split_dialogue hdialogue
    obtain ⟨hquiet, hreport⟩ := reaches_tell htell
    have hfirst : ListsOnce adapter (accessesOf (dialogueOf log)) := by
      rw [hdialogue, accessesOf_append] at honce
      exact honce.of_infix (List.prefix_append _ _).isInfix
    obtain ⟨hsignalled, hcode⟩ := attempt_reaches_shown h.of_append hp hfirst
    have hlater : deliveries later = [] := deliveries_eq_nil h (List.subset_append_right _ _) hquiet
    rw [deliveries_append, hlater, List.append_nil]
    refine ⟨fun process hprocess => ?_, fun report hend => ?_⟩
    · obtain ⟨hall, hthis⟩ := hsignalled process hprocess
      exact ⟨hall, hthis.append later⟩
    · rw [KillReport.exitCode, ← hcode report.outcome (congrArg _ (hreport report hend))]
      cases report.told <;> simp

/-- What is allowed depends on the log through the process table only. -/
theorem Allowed.congr {root : String} {log log' : List Moment} (htable : tableOf log' = tableOf log) {m : Moment}
    (h : Allowed root log m) : Allowed root log' m := by
  cases m with
  | answered r answer reached => cases r <;> simpa only [Allowed, htable] using h
  | _ => simpa only [Allowed, htable] using h

/-- A stretch of the run in which nothing happens but these questions and answers. -/
def answeredIn (reached : Request → List HistoryKey) (t : Dialogue) : List Moment :=
  t.map fun x => .answered x.1 x.2 (reached x.1)

section Answered
variable {reached : Request → List HistoryKey} {t : Dialogue}

@[simp] theorem tableOf_answeredIn : tableOf (answeredIn reached t) = [] := by
  apply List.filterMap_eq_nil_iff.mpr
  intro m hm
  obtain ⟨x, -, rfl⟩ := List.mem_map.mp hm
  rfl

@[simp] theorem dialogueOf_answeredIn : dialogueOf (answeredIn reached t) = t := by
  rw [answeredIn, dialogueOf, List.filterMap_map]
  exact List.filterMap_some

theorem allowed_answeredIn {root : String} {log : List Moment} (hlog : Justified (Allowed root) log)
    (h : ∀ x ∈ t, Allowed root log (.answered x.1 x.2 (reached x.1))) :
    Justified (Allowed root) (log ++ answeredIn reached t) := by
  induction t using List.reverseRecOn with
  | nil => simpa [answeredIn] using hlog
  | append_singleton t x ih =>
    rw [answeredIn, List.map_append, ← answeredIn, ← List.append_assoc]
    refine (ih fun y hy => h y (List.mem_append_left _ hy)).concat ?_
    exact (h x (by simp)).congr (by simp)

end Answered

/-- The files stand still, every signal gets through, every line is written, and the user types this one. -/
def terminal (fs : FileSystem) (line : Text) : (r : Request) → r.Answer
  | .sys call => Control.still fs call
  | .prompt _ => true
  | .readLine => some line
  | .println _ _ => true

def plainTexts : Texts where
  ioError _ := "os error"
  toStringPretty result := .ok result.processName

/-- A daemon is asked to terminate, and the user says yes. -/
def daemonDialogue : Dialogue :=
  (sherKill hostAdapter .ascii plainTexts daemonRefresh 42 .term false false).transcript
    (terminal loneDaemon "Yes\n".toList)

def Request.isKill : Request → Bool
  | .sys (.kill _ _) => true
  | _ => false

/-- Up to the live read, and from the kill call on. -/
def beforeKill : Dialogue := daemonDialogue.takeWhile (!·.1.isKill)

def fromKill : Dialogue := daemonDialogue.dropWhile (!·.1.isKill)

theorem beforeKill_append_fromKill : beforeKill ++ fromKill = daemonDialogue := List.takeWhile_append_dropWhile

/-- The daemon is gone after the live read, and another process has its pid when the signal is sent. -/
def daemonRun : List Moment :=
  .started (42, 98765) :: answeredIn (fun _ => []) beforeKill ++ [.ended (42, 98765), .started (42, 99000)] ++
    answeredIn (fun r => if r.isKill then [(42, 99000)] else []) fromKill

theorem answer_of_mem_daemonDialogue {r : Request} {answer : r.Answer} (h : ⟨r, answer⟩ ∈ daemonDialogue) :
    answer = terminal loneDaemon "Yes\n".toList r :=
  Interaction.answer_of_mem_transcript _ _ h

def AsksFirst : Request → Prop
  | .sys (.proc a) => (procPath "/proc" 42 "").toList <+: a.path.toList ∨ a = .readDir "/proc"
  | .sys (.kill _ _) => False
  | _ => True

instance : DecidablePred AsksFirst
  | .sys (.proc _) => inferInstanceAs (Decidable (_ ∨ _))
  | .sys (.kill _ _) => isFalse id
  | .prompt _ | .readLine | .println _ _ => isTrue trivial

def AsksLast : Request → Prop
  | .sys (.kill pid _) => pid = 42
  | .println _ _ => True
  | _ => False

instance : DecidablePred AsksLast
  | .sys (.kill pid _) => inferInstanceAs (Decidable (pid = 42))
  | .println _ _ => isTrue trivial
  | .sys (.proc _) | .prompt _ | .readLine => isFalse id

theorem allowed_beforeKill : Justified (Allowed "/proc")
    (.started (42, 98765) :: answeredIn (fun _ => []) beforeKill) := by
  have hasks : ∀ r ∈ beforeKill.map (·.1), AsksFirst r := by decide +kernel
  have hshown : shownStart loneDaemon "/proc" 42 = some 98765 := by decide +kernel
  have hstarted : Justified (Allowed "/proc") [.started (42, 98765)] := by
    change Justified (Allowed "/proc") ([] ++ [.started (42, 98765)])
    exact Justified.nil.concat ⟨by simp [SlotLog.Allows, Control.slots, SlotLog.holder, tableOf], by decide⟩
  refine allowed_answeredIn hstarted ?_
  rintro ⟨r, answer⟩ hx
  have hask := hasks r (List.mem_map_of_mem hx)
  obtain rfl := answer_of_mem_daemonDialogue (beforeKill_append_fromKill ▸ List.mem_append_left fromKill hx)
  have halive : holder (tableOf [.started (42, 98765)]) 42 = some 98765 := rfl
  cases r with
  | sys call =>
    cases call with
    | kill pid signal => exact hask.elim
    | proc a =>
      cases a with
      | readFile path =>
        refine ⟨rfl, ?_⟩
        rintro pid content stat rfl hdecoded hparse
        obtain rfl := inDirectory_unique (hask.resolve_right (by simp)) (inDirectory_procPath "/proc" pid (by decide))
        rw [halive, startTime_of_shown hshown hdecoded hparse]
      | _ => rfl
  | _ => rfl

theorem allowed_daemonRun : Justified (Allowed "/proc") daemonRun := by
  have hasks : ∀ r ∈ fromKill.map (·.1), AsksLast r := by decide +kernel
  have htable (later : List Moment) : tableOf (.started (42, 98765) :: answeredIn (fun _ => []) beforeKill ++ later) =
      .started (42, 98765) :: tableOf later := by
    change tableOf ([.started (42, 98765)] ++ answeredIn (fun _ => []) beforeKill ++ later) = _
    rw [tableOf_append, tableOf_append, tableOf_answeredIn]
    rfl
  have hended : Allowed "/proc" (.started (42, 98765) :: answeredIn (fun _ => []) beforeKill ++ [])
      (.ended (42, 98765)) := by
    rw [Allowed, htable]
    exact ⟨rfl, trivial⟩
  have hreplaced : Allowed "/proc" (.started (42, 98765) :: answeredIn (fun _ => []) beforeKill ++ [.ended (42, 98765)])
      (.started (42, 99000)) := by
    rw [Allowed, htable]
    exact ⟨⟨rfl, by simp [Control.slots, tableOf]⟩, by decide⟩
  rw [List.append_nil] at hended
  have hmoved := (allowed_beforeKill.concat hended).concat hreplaced
  rw [List.append_assoc] at hmoved
  refine allowed_answeredIn hmoved ?_
  rintro ⟨r, answer⟩ hx
  have hask := hasks r (List.mem_map_of_mem hx)
  obtain rfl := answer_of_mem_daemonDialogue (beforeKill_append_fromKill ▸ List.mem_append_right beforeKill hx)
  cases r with
  | sys call =>
    cases call with
    | kill pid signal =>
      obtain rfl : pid = 42 := hask
      have hheld : holder (tableOf (.started (42, 98765) :: answeredIn (fun _ => []) beforeKill ++
          [.ended (42, 98765), .started (42, 99000)])) 42 = some 99000 := by
        rw [htable]
        rfl
      exact ⟨99000, hheld, rfl⟩
    | proc a => exact hask.elim
  | println stream text => rfl
  | _ => exact hask.elim

theorem dialogueOf_daemonRun : dialogueOf daemonRun = daemonDialogue := by
  change dialogueOf ([.started (42, 98765)] ++ answeredIn _ beforeKill ++ _ ++ answeredIn _ fromKill) = _
  have hstarted : dialogueOf [.started (42, 98765)] = [] := rfl
  have hmoved : dialogueOf [.ended (42, 98765), .started (42, 99000)] = [] := rfl
  simp only [dialogueOf_append, dialogueOf_answeredIn, hstarted, hmoved, List.nil_append, List.append_nil]
  exact beforeKill_append_fromKill

theorem listsOnce_daemonRun : ListsOnce hostAdapter (accessesOf (dialogueOf daemonRun)) := by
  rw [dialogueOf_daemonRun]
  have hstill : ∀ x ∈ accessesOf daemonDialogue, x.2 = loneDaemon x.1 := by
    intro x hx
    obtain ⟨⟨r, answer⟩, hy, hr⟩ := List.mem_filterMap.mp hx
    obtain rfl := answer_of_mem_daemonDialogue hy
    cases r with
    | sys call =>
      cases call with
      | proc a =>
        cases hr
        rfl
      | kill pid signal => cases hr
    | _ => cases hr
  apply listsOnce_of_still fun answer hm => hstill ⟨_, answer⟩ hm
  intro pids h
  have hlisted : hostAdapter.listPids.resultOn loneDaemon = .ok [42] := by decide +kernel
  obtain rfl := Except.ok.inj (hlisted.symm.trans h)
  exact List.nodup_singleton 42

/-- The signal reaches the process that took the pid over at the last moment. -/
theorem kill_reaches_shown_daemon : deliveries daemonRun = [(42, 99000)] ∧
    Signalled hostAdapter .ascii daemonRefresh 42 .term false daemonRun (42, 99000) := by
  have hdeliveries : deliveries daemonRun = [(42, 99000)] := by decide +kernel
  have hrun : (sherKill hostAdapter .ascii plainTexts daemonRefresh 42 .term false false).Reaches (dialogueOf daemonRun)
      (.pure ((sherKill hostAdapter .ascii plainTexts daemonRefresh 42 .term false false).run
        (terminal loneDaemon "Yes\n".toList))) := by
    rw [dialogueOf_daemonRun]
    exact Interaction.reaches_run _ _
  obtain ⟨hreached, -⟩ :=
    @kill_reaches_shown hostAdapter _ _ _ _ _ _ _ _ _ allowed_daemonRun hrun listsOnce_daemonRun
  exact ⟨hdeliveries, (hreached (42, 99000) (by rw [hdeliveries]; exact List.mem_singleton_self _)).2⟩

end ProcessExplorer.Cli
