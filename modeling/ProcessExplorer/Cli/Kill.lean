import ProcessExplorer.Cli.Tree
import ProcessExplorer.Intelligence.MovingFiles
import ProcessExplorer.Intelligence.SendSignal

/-! The program sher kill, from the refresh to the exit code: what it asks of the kernel and of the user. -/
namespace ProcessExplorer.Cli
open Library Model Telemetry Telemetry.Linux Intelligence Gui

inductive Stream where
  | stdout | stderr

/-- What the program asks for: a call to the kernel, a question on the terminal, a line from the user, or a line that
ends it. -/
inductive Request where
  | sys (call : SysCall)
  | prompt (text : String)
  | readLine
  | println (stream : Stream) (text : String)

/-- A text may fail to be written out, and a line to be read. At the end of the input a line is empty. -/
abbrev Request.Answer : Request → Type
  | .sys call => call.Answer
  | .prompt _ => Bool
  | .readLine => Option Text
  | .println _ _ => Bool

def Request.IsKill (r : Request) : Prop := ∃ pid signal, r = .sys (.kill pid signal)

@[simp] theorem not_isKill_prompt (text : String) : ¬ (Request.prompt text).IsKill := by simp [Request.IsKill]

@[simp] theorem not_isKill_readLine : ¬ Request.readLine.IsKill := by simp [Request.IsKill]

@[simp] theorem not_isKill_println (stream : Stream) (text : String) : ¬ (Request.println stream text).IsKill := by
  simp [Request.IsKill]

abbrev Session (α : Type) := Interaction Request Request.Answer α

abbrev Dialogue := Interaction.Transcript Request Request.Answer

def onFiles {α : Type} (p : Interaction Access Access.Answer α) : Session α :=
  Interaction.embed (B := Request.Answer) (fun a => Request.sys (.proc a)) p

def onKernel {α : Type} (p : Interaction SysCall SysCall.Answer α) : Session α :=
  Interaction.embed (B := Request.Answer) Request.sys p

inductive KillOutcome where
  | refreshFailed (e : TelemetryError)
  | notFound
  | promptFailed
  | answerFailed
  | aborted
  | called (processName : String) (result : Result Unit)

def KillOutcome.exitCode : KillOutcome → ℕ
  | .called _ (.ok ()) => 0
  | _ => 1

def killPrompt (signal : Signal) (name : String) (pid : Pid) : String :=
  "Send " ++ signal.name ++ " to " ++ name ++ " (pid " ++ toString pid ++ ")?" ++
    (if signal.isUncatchable then " This cannot be caught or ignored by the process." else "") ++ " [y/N] "

def isYes (lower : Lowercase) (line : Text) : Bool :=
  let answer := lower.run (Text.trim line)
  answer = "y".toList || answer = "yes".toList

/-- None when the user consents. -/
def refusal (lower : Lowercase) (text : String) : Session (Option KillOutcome) := do
  match ← (Interaction.query (Request.prompt text) : Session Bool) with
  | false => pure (some .promptFailed)
  | true =>
    match ← (Interaction.query Request.readLine : Session (Option Text)) with
    | none => pure (some .answerFailed)
    | some line => pure (if isYes lower line then none else some .aborted)

def kill (adapter : LinuxAdapter) (lower : Lowercase) (intel : ProcessIntelligence) (pid : Pid) (signal : Signal)
    (yes : Bool) : Session KillOutcome := do
  match intel.process pid with
  | none => pure .notFound
  | some process =>
    match ← (if yes then pure none else refusal lower (killPrompt signal process.name pid)) with
    | some refused => pure refused
    | none =>
      let result ← onKernel (sendSignalVerified adapter.control pid process.startTime signal).run
      pure (.called process.name result)

/-- Up to the line that tells the outcome. None when the refresh panics over a malformed address. -/
def attemptKill (adapter : LinuxAdapter) (lower : Lowercase) (call : Call) (pid : Pid) (signal : Signal) (yes : Bool) :
    Session (Option KillOutcome) := do
  match ← onFiles (refreshOver adapter .new call) with
  | none => pure none
  | some (_, .error e) => pure (some (.refreshFailed e))
  | some (intel, .ok ()) =>
    let outcome ← kill adapter lower intel pid signal yes
    pure (some outcome)

structure KillResult where
  pid : Pid
  processName : String
  signal : String
  ok : Bool
  error : Option String

/-- How the standard library writes an I/O error, and serde_json a result. -/
structure Texts where
  ioError : ErrorKind → String
  toStringPretty : KillResult → Except String String

def tierText : Tier → String
  | .continuous => "Continuous"
  | .shortSample => "ShortSample"
  | .profile => "Profile"
  | .deepTrace => "DeepTrace"

def errorText (texts : Texts) : TelemetryError → String
  | .notFound pid => "process " ++ toString pid ++ " not found"
  | .permissionDenied path => "permission denied reading " ++ path
  | .parse path message => "failed to parse " ++ path ++ ": " ++ message
  | .io path source => "I/O error reading " ++ path ++ ": " ++ texts.ioError source
  | .unsupported tier => tierText tier ++ " collection is not implemented yet"
  | .unsupportedPlatform message => "unsupported platform: " ++ message
  | .pidReused pid expected found =>
    "pid " ++ toString pid ++ " was reused by a different process (expected start_time " ++ toString expected ++
      ", found " ++ toString found ++ ") — refusing to signal it"

section Report
variable (texts : Texts) (pid : Pid) (signal : Signal) (json : Bool)

/-- The one line that tells the outcome, and where it goes. -/
def outcomeLine : KillOutcome → Stream × String
  | .refreshFailed e => (.stderr, "sher: failed to read process table: " ++ errorText texts e)
  | .notFound => (.stderr, notFoundLine pid)
  | .promptFailed => (.stderr, "sher: failed to write confirmation prompt")
  | .answerFailed => (.stderr, "sher: failed to read confirmation, aborting")
  | .aborted => (.stdout, "Aborted.")
  | .called processName result =>
    let error := match result with
      | .ok () => none
      | .error e => some (errorText texts e)
    if json then
      match texts.toStringPretty ⟨pid, processName, signal.name, error.isNone, error⟩ with
      | .ok text => (.stdout, text)
      | .error e => (.stderr, "sher: failed to serialize output: " ++ e)
    else
      match error with
      | none => (.stdout, "Sent " ++ signal.name ++ " to pid " ++ toString pid ++ " (" ++ processName ++ ").")
      | some e => (.stderr, "sher: failed to send " ++ signal.name ++ " to pid " ++ toString pid ++ ": " ++ e)

/-- The outcome, and whether its line could be written. -/
structure KillReport where
  outcome : KillOutcome
  told : Bool

/-- A line that cannot be written is a panic, or a broken pipe, which ends the program by its signal. -/
def KillReport.exitCode (report : KillReport) : ℕ := if report.told then report.outcome.exitCode else 101

def tell : Option KillOutcome → Session (Option KillReport)
  | none => pure none
  | some outcome => do
    let line := outcomeLine texts pid signal json outcome
    let told ← (Interaction.query (Request.println line.1 line.2) : Session Bool)
    pure (some ⟨outcome, told⟩)

end Report

/-- The whole program. -/
def sherKill (adapter : LinuxAdapter) (lower : Lowercase) (texts : Texts) (call : Call) (pid : Pid) (signal : Signal)
    (yes json : Bool) : Session (Option KillReport) := do
  let outcome ← attemptKill adapter lower call pid signal yes
  tell texts pid signal json outcome

/-- The questions to the user, with answers by which the signal may be sent. -/
def Consent (lower : Lowercase) (yes : Bool) (text : String) (t : Dialogue) : Prop :=
  if yes then t = [] else
    ∃ line, isYes lower line = true ∧ t = [⟨.prompt text, true⟩, ⟨.readLine, some line⟩]

def filesOf (t : Interaction.Transcript Access Access.Answer) : Dialogue := t.map fun x => ⟨.sys (.proc x.1), x.2⟩

def callsOf (t : Interaction.Transcript SysCall SysCall.Answer) : Dialogue := t.map fun x => ⟨.sys x.1, x.2⟩

section Run
variable {adapter : LinuxAdapter} {lower : Lowercase} {call : Call} {intel : ProcessIntelligence} {pid : Pid}
  {signal : Signal} {yes : Bool} {t : Dialogue}

/-- Nothing has been sent, and a run that is over has failed. -/
def Quiet {α : Type} (Failed : α → Prop) (t : Dialogue) (rest : Session α) : Prop :=
  (∀ x ∈ t, ¬ x.1.IsKill) ∧ ∀ a, rest = .pure a → Failed a

theorem callsOf_accesses (files : Interaction.Transcript Access Access.Answer) :
    callsOf (accesses files) = filesOf files := List.map_map

theorem not_isKill_filesOf {files : Interaction.Transcript Access Access.Answer} {x : Σ r : Request, r.Answer}
    (h : x ∈ filesOf files) : ¬ x.1.IsKill := by
  obtain ⟨y, -, rfl⟩ := List.mem_map.mp h
  rintro ⟨pid, signal, hk⟩
  cases hk

theorem Consent.not_isKill {text : String} (h : Consent lower yes text t) {x : Σ r : Request, r.Answer} (hx : x ∈ t) :
    ¬ x.1.IsKill := by
  rintro ⟨pid, signal, hk⟩
  cases yes with
  | true =>
    obtain rfl : t = [] := h
    cases hx
  | false =>
    obtain ⟨line, -, rfl⟩ := h
    rcases List.mem_cons.mp hx with rfl | hx
    · cases hk
    · obtain rfl := List.mem_singleton.mp hx
      cases hk

theorem reaches_refusal {text : String} {rest : Session (Option KillOutcome)} (h : (refusal lower text).Reaches t rest) :
    (rest = .pure none ∧ Consent lower false text t) ∨ Quiet (∃ refused ∈ ·, refused.exitCode = 1) t rest := by
  cases h with
  | refl => exact .inr ⟨by simp, fun a ha => by cases ha⟩
  | answered _ _ flushed h =>
    cases flushed with
    | false =>
      obtain ⟨rfl, rfl⟩ := h.of_pure
      refine .inr ⟨by simp, ?_⟩
      rintro _ ⟨⟩
      exact ⟨_, rfl, rfl⟩
    | true =>
      cases h with
      | refl => exact .inr ⟨by simp, fun a ha => by cases ha⟩
      | answered _ _ line h =>
        cases line with
        | none =>
          obtain ⟨rfl, rfl⟩ := h.of_pure
          refine .inr ⟨by simp, ?_⟩
          rintro _ ⟨⟩
          exact ⟨_, rfl, rfl⟩
        | some line =>
          obtain ⟨rfl, rfl⟩ := h.of_pure
          cases hyes : isYes lower line with
          | true => exact .inl ⟨by simp, line, hyes, rfl⟩
          | false =>
            refine .inr ⟨by simp, ?_⟩
            rintro _ ⟨⟩
            exact ⟨.aborted, by simp, rfl⟩

theorem reaches_onKernel {α β : Type} {p : Interaction SysCall SysCall.Answer β} {g : β → α} {rest : Session α}
    (h : (onKernel p >>= fun b => .pure (g b)).Reaches t rest) :
    ∃ calls p', t = callsOf calls ∧ p.Reaches calls p' ∧ rest = onKernel p' >>= fun b => .pure (g b) := by
  obtain ⟨p', hp, rfl⟩ := h.of_map
  obtain ⟨calls, p'', rfl, hcalls, rfl⟩ := Interaction.Reaches.of_embed _ hp
  exact ⟨calls, p'', rfl, hcalls, rfl⟩

theorem reaches_kill {rest : Session KillOutcome} (h : (kill adapter lower intel pid signal yes).Reaches t rest) :
    (∃ shown consent calls p, intel.process pid = some shown ∧ t = consent ++ callsOf calls ∧
      Consent lower yes (killPrompt signal shown.name pid) consent ∧
      (sendSignalVerified adapter.control pid shown.startTime signal).run.Reaches calls p ∧
      rest = onKernel p >>= fun result => .pure (.called shown.name result)) ∨
    Quiet (·.exitCode = 1) t rest := by
  cases hshown : intel.process pid with
  | none =>
    rw [kill, hshown] at h
    obtain ⟨rfl, rfl⟩ := h.of_pure
    refine .inr ⟨by simp, ?_⟩
    rintro _ ⟨⟩
    rfl
  | some shown =>
    rw [kill, hshown] at h
    cases yes with
    | true =>
      obtain ⟨calls, p, rfl, hcalls, rfl⟩ := reaches_onKernel h
      exact .inl ⟨shown, [], calls, p, rfl, rfl, rfl, hcalls, rfl⟩
    | false =>
      rcases h.bind_cases with ⟨q, next, hp, rfl⟩ | ⟨t₁, t₂, refused, rfl, hp, hrest⟩
      · rcases reaches_refusal hp with ⟨hend, -⟩ | ⟨hquiet, -⟩
        · cases hend
        · exact .inr ⟨hquiet, fun outcome hend => by cases hend⟩
      · rcases reaches_refusal hp with ⟨hnone, hconsent⟩ | ⟨hquiet, hfailed⟩
        · obtain rfl := Interaction.pure.inj hnone
          obtain ⟨calls, p, rfl, hcalls, rfl⟩ := reaches_onKernel hrest
          exact .inl ⟨shown, t₁, calls, p, rfl, rfl, hconsent, hcalls, rfl⟩
        · obtain ⟨other, rfl, hcode⟩ := hfailed refused rfl
          obtain ⟨rfl, rfl⟩ := hrest.of_pure
          refine .inr ⟨by simpa using hquiet, ?_⟩
          rintro _ ⟨⟩
          exact hcode

/-- What a run has done so far: it has come to the call for the signal, or it has sent nothing. -/
theorem reaches_attemptKill {rest : Session (Option KillOutcome)}
    (h : (attemptKill adapter lower call pid signal yes).Reaches t rest) :
    (∃ files intel shown consent calls p, t = filesOf files ++ (consent ++ callsOf calls) ∧
      (refreshOver adapter .new call).Reaches files (.pure (some (intel, .ok ()))) ∧
      intel.process pid = some shown ∧ Consent lower yes (killPrompt signal shown.name pid) consent ∧
      (sendSignalVerified adapter.control pid shown.startTime signal).run.Reaches calls p ∧
      rest = onKernel p >>= fun result => .pure (some (.called shown.name result))) ∨
    Quiet (∀ outcome ∈ ·, outcome.exitCode = 1) t rest := by
  rcases h.bind_cases with ⟨q, next, hp, rfl⟩ | ⟨t₁, t₂, result, rfl, hp, hrest⟩
  · obtain ⟨files, -, rfl, -, -⟩ := Interaction.Reaches.of_embed _ hp
    exact .inr ⟨fun x hx => not_isKill_filesOf hx, fun a hend => by cases hend⟩
  · obtain ⟨files, p', rfl, hfiles, hend⟩ := Interaction.Reaches.of_embed _ hp
    obtain rfl : p' = .pure result := by
      cases p' with
      | pure result' => rw [Interaction.pure.inj hend]
      | ask q next => cases hend
    have hquiet (x : Σ r : Request, r.Answer) (hx : x ∈ filesOf files) : ¬ x.1.IsKill := not_isKill_filesOf hx
    match result, hrest with
    | none, hrest =>
      obtain ⟨rfl, rfl⟩ := hrest.of_pure
      rw [List.append_nil]
      refine .inr ⟨hquiet, ?_⟩
      rintro _ ⟨⟩
      exact nofun
    | some (_, .error e), hrest =>
      obtain ⟨rfl, rfl⟩ := hrest.of_pure
      rw [List.append_nil]
      refine .inr ⟨hquiet, ?_⟩
      rintro _ ⟨⟩ _ ⟨⟩
      rfl
    | some (intel, .ok ()), hrest =>
      obtain ⟨p, hkill, rfl⟩ := hrest.of_map
      rcases reaches_kill hkill with ⟨shown, consent, calls, p, hshown, rfl, hconsent, hcalls, rfl⟩ | ⟨hsilent, hfailed⟩
      · exact .inl ⟨files, intel, shown, consent, calls, p, rfl, hfiles, hshown, hconsent, hcalls,
          Interaction.bind_assoc _ _ _⟩
      · refine .inr ⟨fun x hx => ?_, fun a ha => ?_⟩
        · rcases List.mem_append.mp hx with hx | hx
          · exact hquiet x hx
          · exact hsilent x hx
        · cases p with
          | ask q next => cases ha
          | pure outcome =>
            cases ha
            rintro _ ⟨⟩
            exact hfailed outcome rfl

end Run

/-- The result of a call that got to kill(2) is what kill(2) answered. -/
theorem result_of_kill {adapter : LinuxAdapter} {pid : Pid} {expected : UInt64} {signal : Signal}
    {calls : Interaction.Transcript SysCall SysCall.Answer} {result : Result Unit}
    (h : (sendSignalVerified adapter.control pid expected signal).run.Reaches calls (.pure result)) :
    result = .ok () ↔ ⟨.kill pid signal, .ok ()⟩ ∈ calls := by
  constructor
  · rintro rfl
    obtain ⟨t₁, t₂, live, rfl, -, hrest⟩ := h.of_bind_ok
    change Interaction.Reaches (ExceptT.run (if live.startTime ≠ expected then
      throw (.pidReused pid expected live.startTime) else sendSignal pid signal)) t₂ _ at hrest
    by_cases hstart : live.startTime = expected
    · rw [if_neg (not_not.mpr hstart)] at hrest
      cases hrest with
      | answered _ _ answer hanswer =>
        match answer, hanswer with
        | .ok (), hanswer =>
          obtain ⟨rfl, -⟩ := hanswer.of_pure
          exact List.mem_append_right _ (List.mem_singleton_self _)
        | .error .esrch, hanswer => cases hanswer.of_pure.2
        | .error .eperm, hanswer => cases hanswer.of_pure.2
        | .error (.other code), hanswer => cases hanswer.of_pure.2
    · rw [if_pos hstart] at hrest
      cases hrest.of_pure.2
  · intro hkill
    obtain ⟨t', live, answer, rfl, hlive, -, hstart⟩ := kill_after_live_read h ⟨_, hkill, pid, signal, rfl⟩
    have hanswer : answer = .ok () := by
      rcases List.mem_append.mp hkill with hkill | hkill
      · exact absurd ⟨pid, signal, rfl⟩ (not_isKill_of_mem_accesses hkill)
      · simpa [eq_comm] using hkill
    subst hanswer
    have hsent : (sendSignal pid signal).run.Reaches [⟨.kill pid signal, .ok ()⟩] (.pure (.ok ())) := by
      change Interaction.Reaches (Interaction.ask (SysCall.kill pid signal) _) _ _
      exact .answered _ _ _ (.refl _)
    have hwhole : (sendSignalVerified adapter.control pid expected signal).run.Reaches
        (accesses t' ++ [⟨.kill pid signal, .ok ()⟩]) (.pure (.ok ())) := by
      refine Interaction.Reaches.bind hlive ?_
      change Interaction.Reaches (ExceptT.run (if live.startTime ≠ expected then
        throw (.pidReused pid expected live.startTime) else sendSignal pid signal)) _ _
      rwa [if_neg (not_not.mpr hstart)]
    exact Interaction.pure.inj (h.unique hwhole)

end ProcessExplorer.Cli
