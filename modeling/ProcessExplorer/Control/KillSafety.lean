import ProcessExplorer.Control.KillWorkflow

/-! Whom the signals of the kill workflow reach, in every interleaving. -/
namespace ProcessExplorer.Control
open Library Model Telemetry Telemetry.Linux Intelligence

/-- The first access of a verified call. -/
def statRead (adapter : LinuxAdapter) (pid : Pid) : SysCall :=
  .proc (.readFile (procPath adapter.root pid "stat"))

section Deliveries
variable {adapter : LinuxAdapter} {s : State} {id : ℕ} {chosen : HistoryKey} {signal : Signal}

theorem holder_pos {root : String} {log : List Event} (h : Justified (Possible root) log) {pid : Pid}
    {startTime : UInt64} (hh : holder log pid = some startTime) : 0 < pid := by
  obtain ⟨e, hm, he⟩ := SlotLog.taken_of_holder hh
  obtain ⟨past, rest, rfl⟩ := List.append_of_mem hm
  have hpossible := (h past e rest rfl).2
  cases e with
  | started process =>
    cases he
    exact hpossible
  | _ => cases he

/-- Only kill(2) reaches anyone. -/
theorem deliveries_eq_nil {root : String} {log part : List Event} (h : Justified (Possible root) log)
    (hsub : part ⊆ log) (hnone : ∀ x ∈ answersOf id part, ¬ x.1.IsKill) : deliveries id part = [] := by
  apply List.flatMap_eq_nil_iff.mpr
  intro e he
  cases e with
  | answered i call answer reached =>
    by_cases hi : i = id
    · subst hi
      obtain ⟨past, rest, rfl⟩ := List.append_of_mem (hsub he)
      have hanswers := (h past _ rest rfl).2
      have hcall : ¬ call.IsKill := hnone ⟨call, answer⟩
        (List.mem_filterMap.mpr ⟨_, he, by simp⟩)
      simp only [if_true]
      match call, answer, hanswers, hcall with
      | .proc (.readFile path), _, hanswers, _ => exact hanswers.1
      | .proc (.readLink path), _, hanswers, _ => exact hanswers
      | .proc (.readDir path), _, hanswers, _ => exact hanswers
      | .proc (.metadata path), _, hanswers, _ => exact hanswers
      | .kill pid signal, _, _, hcall => exact absurd ⟨pid, signal, rfl⟩ hcall
    · simp [hi]
  | _ => rfl

/-- What was read is a stat line with this start time. -/
def StatShows (adapter : LinuxAdapter) (pid : Pid) (a : (statRead adapter pid).Answer)
    (startTime : UInt64) : Prop :=
  ∃ content stat, decoded a = .ok content ∧
    parseStatLine content (procPath adapter.root pid "stat") = .ok stat ∧ stat.starttime = startTime

/-- A verified call that comes to kill(2) has first read the expected start time from stat. -/
theorem answers_of_kill {t : Interaction.Transcript SysCall SysCall.Answer}
    {rest : Interaction SysCall SysCall.Answer (Result Unit)}
    (h : (verifiedCall adapter chosen signal).Reaches t rest) (hkill : ∃ x ∈ t, x.1.IsKill) :
    ∃ a reads answer live,
      t = ⟨statRead adapter chosen.1, a⟩ :: (reads ++ [⟨.kill chosen.1 signal, answer⟩]) ∧
      (∀ x ∈ reads, ¬ x.1.IsKill) ∧ StatShows adapter chosen.1 a chosen.2 ∧
      (adapter.control.process chosen.1).run.Reaches (⟨statRead adapter chosen.1, a⟩ :: reads)
        (.pure (.ok live)) := by
  obtain ⟨t', live, answer, rfl, hlive, hprocess, hstart⟩ := kill_after_live_read h hkill
  obtain ⟨a, content, stat, t'', rfl, hdecoded, hparse, hstat⟩ := adapter.process_startTime _ hprocess
  exact ⟨a, accesses t'', answer, live, rfl, fun x hx => not_isKill_of_mem_accesses hx,
    ⟨content, stat, hdecoded, hparse, hstat.symm.trans hstart⟩, hlive⟩

/-- The first answer of a call stands somewhere in the log. -/
theorem log_of_answers {log : List Event} {x : Σ call, SysCall.Answer call}
    {t : Interaction.Transcript SysCall SysCall.Answer} (h : answersOf id log = x :: t) :
    ∃ before reached rest, log = before ++ .answered id x.1 x.2 reached :: rest ∧
      answersOf id before = [] ∧ answersOf id rest = t := by
  obtain ⟨before, e, rest, rfl, hbefore, he, hrest⟩ := List.filterMap_eq_cons_iff.mp h
  cases e with
  | answered i call answer reached =>
    by_cases hi : i = id
    · subst hi
      simp only [if_true, Option.some.injEq] at he
      exact ⟨before, reached, rest, by rw [← he], List.filterMap_eq_nil_iff.mpr hbefore, hrest⟩
    · simp [hi] at he
  | _ => cases he

/-- A call that reached someone has gone through the live read to kill(2). -/
theorem answers_of_delivery (h : Inv adapter s) (hm : .confirmed id chosen signal ∈ s.log)
    (hne : deliveries id s.log ≠ []) :
    ∃ a reads answer live, answersOf id s.log =
        ⟨statRead adapter chosen.1, a⟩ :: (reads ++ [⟨.kill chosen.1 signal, answer⟩]) ∧
      (∀ x ∈ reads, ¬ x.1.IsKill) ∧ StatShows adapter chosen.1 a chosen.2 ∧
      (adapter.control.process chosen.1).run.Reaches (⟨statRead adapter chosen.1, a⟩ :: reads)
        (.pure (.ok live)) := by
  obtain ⟨rest, hr⟩ := h.followed id chosen signal hm
  apply answers_of_kill hr
  by_contra hnone
  push Not at hnone
  exact hne (deliveries_eq_nil h.possible (List.Subset.refl _) hnone)

/-- At the read of stat the chosen process held its pid. -/
theorem holder_at_stat_read (h : Inv adapter s) (hm : .confirmed id chosen signal ∈ s.log)
    (hne : deliveries id s.log ≠ []) {a : (statRead adapter chosen.1).Answer} {reached : List HistoryKey}
    {before rest : List Event}
    (hlog : s.log = before ++ .answered id (statRead adapter chosen.1) a reached :: rest)
    (hbefore : answersOf id before = []) : holder before chosen.1 = some chosen.2 := by
  obtain ⟨a', reads, answer, live, hall, -, ⟨content, stat, hdecoded, hparse, hstat⟩, -⟩ :=
    answers_of_delivery h hm hne
  have ha : a = a' := by
    rw [hlog, answersOf_append, hbefore, ← List.singleton_append, answersOf_append,
      answersOf_answered] at hall
    simp only [if_true, List.nil_append, List.cons_append, List.cons.injEq, Sigma.mk.injEq, heq_eq_eq,
      true_and] at hall
    exact hall.1
  subst ha
  exact hstat ▸ (h.possible before _ rest hlog).2.2 chosen.1 content stat rfl hdecoded hparse

/-- A call that reached someone reached one process, the holder of the chosen pid at that moment. -/
theorem delivery_split (h : Inv adapter s) (hm : .confirmed id chosen signal ∈ s.log)
    (hne : deliveries id s.log ≠ []) :
    ∃ a before between after startTime, s.log = before ++ .answered id (statRead adapter chosen.1) a [] ::
        (between ++ .answered id (.kill chosen.1 signal) (.ok ()) [(chosen.1, startTime)] :: after) ∧
      answersOf id before = [] ∧ holder before chosen.1 = some chosen.2 ∧
      holder (before ++ .answered id (statRead adapter chosen.1) a [] :: between) chosen.1 = some startTime ∧
      deliveries id s.log = [(chosen.1, startTime)] := by
  obtain ⟨a, reads, answer, live, hall, hreads, -, -⟩ := answers_of_delivery h hm hne
  obtain ⟨before, r₁, rest₁, hlog, hbefore, hrest₁⟩ := log_of_answers hall
  obtain ⟨l₁, l₂, rfl, (hl₁ : answersOf id l₁ = reads), hl₂⟩ :=
    List.filterMap_eq_append_iff.mp hrest₁
  obtain ⟨l₃, r₂, after, rfl, hl₃, hafter⟩ := log_of_answers hl₂
  have hholder := holder_at_stat_read h hm hne hlog hbefore
  have hpos : 0 < chosen.1 := holder_pos ((hlog ▸ h.possible).of_append) hholder
  obtain ⟨rfl, -⟩ := (h.possible before _ _ hlog).2
  have hdeliveries : deliveries id s.log = r₂ := by
    have hsub : before ⊆ s.log ∧ l₁ ⊆ s.log ∧ l₃ ⊆ s.log ∧ after ⊆ s.log := by
      rw [hlog]
      refine ⟨?_, ?_, ?_, ?_⟩ <;> intro e he <;> simp [he]
    rw [hlog, deliveries_append, deliveries_answered, deliveries_append, deliveries_append,
      deliveries_answered, deliveries_eq_nil h.possible hsub.1 (by simp [hbefore]),
      deliveries_eq_nil h.possible hsub.2.1 (hl₁ ▸ hreads),
      deliveries_eq_nil h.possible hsub.2.2.1 (by simp [hl₃]),
      deliveries_eq_nil h.possible hsub.2.2.2 (by simp [hafter])]
    simp
  have hbetween : s.log = (before ++ .answered id (statRead adapter chosen.1) a [] :: (l₁ ++ l₃)) ++
      .answered id (.kill chosen.1 signal) answer r₂ :: after := by simp [hlog]
  have hanswers := (h.possible _ _ _ hbetween).2
  match answer, hanswers with
  | .error e, hanswers => exact absurd (hdeliveries.trans hanswers) hne
  | .ok (), hanswers =>
    simp only [Answers, if_pos hpos] at hanswers
    obtain ⟨startTime, hnow, rfl⟩ := hanswers
    exact ⟨a, before, l₁ ++ l₃, after, startTime, by simp [hlog], hbefore, hholder, hnow, hdeliveries⟩

end Deliveries

/-- The chosen process ended and the other one started after the read of stat, before kill(2). -/
def RecycledInWindow (adapter : LinuxAdapter) (log : List Event) (id : ℕ) (chosen other : HistoryKey) :
    Prop :=
  other.1 = chosen.1 ∧ ∃ a before between after signal,
    log = before ++ .answered id (statRead adapter chosen.1) a [] ::
      (between ++ .answered id (.kill chosen.1 signal) (.ok ()) [other] :: after) ∧
    answersOf id before = [] ∧ [.ended chosen, .started other].Sublist between

def EndedBeforeStatRead (adapter : LinuxAdapter) (log : List Event) (id : ℕ) (chosen : HistoryKey) : Prop :=
  ∃ a reached before after, log = before ++ .answered id (statRead adapter chosen.1) a reached :: after ∧
    answersOf id before = [] ∧ .ended chosen ∈ before

/-- On the answers it got, the live read of a call came back with an error. -/
def LiveReadFailed (adapter : LinuxAdapter) (log : List Event) (id : ℕ) (pid : Pid) : Prop :=
  ∃ t e, t <+: answersOf id log ∧ (adapter.control.process pid).run.Reaches t (.pure (.error e))

section Safety
variable {adapter : LinuxAdapter} {s : State} {id : ℕ} {chosen process : HistoryKey} {signal : Signal}

theorem recycled_of_delivery (h : Inv adapter s) (hm : .confirmed id chosen signal ∈ s.log)
    (hd : process ∈ deliveries id s.log) (hne : process ≠ chosen) :
    RecycledInWindow adapter s.log id chosen process := by
  obtain ⟨a, before, between, after, startTime, hlog, hbefore, hthen, hnow, hdeliveries⟩ :=
    delivery_split h hm (List.ne_nil_of_mem hd)
  obtain rfl : process = (chosen.1, startTime) := by simpa [hdeliveries] using hd
  refine ⟨rfl, a, before, between, after, signal, hlog, hbefore, ?_⟩
  rw [← List.singleton_append, ← List.append_assoc] at hnow
  rw [← List.singleton_append, ← List.append_assoc, ← List.append_assoc] at hlog
  have hlawful : SlotLog.Lawful slots s.log := h.possible.mono fun _ _ hp => hp.1
  -- The read itself leaves the process table as it is.
  obtain ⟨e₁, e₂, h₁, h₂, hsub⟩ := SlotLog.exchanged_between (hlog ▸ hlawful).of_append
    ((SlotLog.holder_concat_of_none slots rfl before _).trans hthen) hnow
    fun heq => hne (Prod.ext rfl heq)
  obtain rfl : e₁ = .ended chosen := by cases e₁ <;> simp_all [slots, Prod.ext_iff]
  obtain rfl : e₂ = .started (chosen.1, startTime) := by cases e₂ <;> simp_all [slots, Prod.ext_iff]
  exact hsub

theorem silent_of_ended (h : Inv adapter s) (hm : .confirmed id chosen signal ∈ s.log)
    (hended : EndedBeforeStatRead adapter s.log id chosen) : deliveries id s.log = [] := by
  by_contra hne
  obtain ⟨a, reached, before, after, hlog, hbefore, hgone⟩ := hended
  have hlawful : SlotLog.Lawful slots s.log := h.possible.mono fun _ _ hp => hp.1
  exact SlotLog.holder_ne_of_left (hlog ▸ hlawful).of_append ⟨_, hgone, rfl⟩
    (holder_at_stat_read h hm hne hlog hbefore)

theorem silent_of_failed (h : Inv adapter s) (hm : .confirmed id chosen signal ∈ s.log)
    (hfailed : LiveReadFailed adapter s.log id chosen.1) : deliveries id s.log = [] := by
  by_contra hne
  obtain ⟨t, e, ht, herror⟩ := hfailed
  obtain ⟨a, reads, answer, live, hall, -, -, hlive⟩ := answers_of_delivery h hm hne
  have hprefix : ⟨statRead adapter chosen.1, a⟩ :: reads <+: answersOf id s.log :=
    ⟨[⟨.kill chosen.1 signal, answer⟩], hall.symm⟩
  rcases List.prefix_or_prefix_of_prefix ht hprefix with ⟨more, hmore⟩ | ⟨more, hmore⟩
  · cases (herror.append_of_pure (hmore ▸ hlive)).2
  · cases (hlive.append_of_pure (hmore ▸ herror)).2

theorem deliveries_length_le (h : Inv adapter s) (hm : .confirmed id chosen signal ∈ s.log) :
    (deliveries id s.log).length ≤ 1 := by
  by_cases hne : deliveries id s.log = []
  · simp [hne]
  · obtain ⟨_, _, _, _, _, -, -, -, -, hdeliveries⟩ := delivery_split h hm hne
    simp [hdeliveries]

theorem confirmed_of_delivery (h : Inv adapter s) (hne : deliveries id s.log ≠ []) :
    ∃ chosen signal, .confirmed id chosen signal ∈ s.log := by
  refine h.asked id fun hnil => hne ?_
  exact deliveries_eq_nil h.possible (List.Subset.refl _) (by simp [hnil])

end Safety

/-- Over every interleaving a signal misses the chosen process only if the pid was recycled between
the read of stat and kill(2), and is never sent on a process gone before or on a failed read. -/
theorem kill_workflow_safe (adapter : LinuxAdapter) (s : State) (run : Reachable adapter s) (id : ℕ) :
    (deliveries id s.log ≠ [] → ∃ chosen signal, .confirmed id chosen signal ∈ s.log) ∧
    ∀ chosen signal, .confirmed id chosen signal ∈ s.log →
      (∀ process ∈ deliveries id s.log, process ≠ chosen →
        RecycledInWindow adapter s.log id chosen process) ∧
      (EndedBeforeStatRead adapter s.log id chosen → deliveries id s.log = []) ∧
      (LiveReadFailed adapter s.log id chosen.1 → deliveries id s.log = []) ∧
      (deliveries id s.log).length ≤ 1 := by
  have h := inv_of_reachable run
  exact ⟨confirmed_of_delivery h, fun chosen signal hm => ⟨fun process => recycled_of_delivery h hm,
    silent_of_ended h hm, silent_of_failed h hm, deliveries_length_le h hm⟩⟩

section Progress
variable {adapter : LinuxAdapter} {s : State} {chosen : HistoryKey} {signal : Signal}

/-- The kernel's answers depend on the log through the process table only. -/
theorem Answers.congr {root : String} {log log' : List Event} (h : ∀ pid, holder log' pid = holder log pid)
    {call : SysCall} {answer : call.Answer} {reached : List HistoryKey}
    (ha : Answers root log call answer reached) : Answers root log' call answer reached := by
  match call, answer, ha with
  | .proc (.readFile path), _, ha => simpa only [Answers, h] using ha
  | .proc (.readLink path), _, ha => exact ha
  | .proc (.readDir path), _, ha => exact ha
  | .proc (.metadata path), _, ha => exact ha
  | .kill pid signal, .ok (), ha => simpa only [Answers, h] using ha
  | .kill pid signal, .error e, ha => exact ha

/-- A call can run to its end while the kernel stands still. -/
theorem exists_still_run (adapter : LinuxAdapter) (answer : ∀ call, SysCall.Answer call)
    (reached : SysCall → List HistoryKey) {id : ℕ}
    {p : Interaction SysCall SysCall.Answer (Result Unit)} (hcall : s.call = some (id, p))
    (h : ∀ x ∈ p.transcript answer, Answers adapter.root s.log x.1 x.2 (reached x.1)) :
    ∃ s', Relation.ReflTransGen (Step adapter) s s' ∧ s'.log = s.log ++
      (p.transcript answer).map fun x => .answered id x.1 x.2 (reached x.1) := by
  induction p generalizing s with
  | pure result => exact ⟨s, .refl, by simp [Interaction.transcript]⟩
  | ask call next ih =>
    have hstep := Step.answer id call next (answer call) (reached call) hcall
      ⟨trivial, h ⟨call, answer call⟩ List.mem_cons_self⟩
    obtain ⟨s', hrun, hlog⟩ := ih (answer call) (s := { s with
      log := s.log ++ [.answered id call (answer call) (reached call)]
      call := some (id, next (answer call)) }) rfl fun x hx =>
        (h x (List.mem_cons_of_mem _ hx)).congr (SlotLog.holder_concat_of_none slots rfl s.log)
    exact ⟨s', .head hstep hrun, by simp [hlog, Interaction.transcript]⟩

/-- Over a kernel that stands still and lets the signal through. -/
def still (fs : FileSystem) : (call : SysCall) → call.Answer
  | .proc a => fs a
  | .kill _ _ => .ok ()

def reachedBy (chosen : HistoryKey) : SysCall → List HistoryKey
  | .proc _ => []
  | .kill _ _ => [chosen]

theorem transcript_verifiedCall (signal : Signal) {fs : FileSystem} {live : ProcessSnapshot}
    (hread : (adapter.process chosen.1).resultOn fs = .ok live) (hstart : live.startTime = chosen.2) :
    (verifiedCall adapter chosen signal).transcript (still fs) =
      accesses ((adapter.process chosen.1).run.transcript fs) ++ [⟨.kill chosen.1 signal, .ok ()⟩] := by
  have hlive : Interaction.run (still fs) (adapter.control.process chosen.1).run = .ok live :=
    (Interaction.run_embed SysCall.proc (still fs) _).trans hread
  have hcheck : (if live.startTime ≠ chosen.2 then
      (throw (.pidReused chosen.1 chosen.2 live.startTime) : System Unit)
      else sendSignal chosen.1 signal) = sendSignal chosen.1 signal := if_neg (not_not.mpr hstart)
  rw [verifiedCall, sendSignalVerified, ExceptT.run_bind, Interaction.transcript_bind, hlive]
  exact congrArg₂ (· ++ ·) (Interaction.transcript_embed SysCall.proc (still fs) _)
    (congrArg (fun x : System Unit => x.run.transcript (still fs)) hcheck)

/-- A process that holds its pid and can be read gets the signal the user confirms. -/
theorem live_process_gets_signal (run : Reachable adapter s) (idle : s.call = none)
    (selected : s.selected = some chosen.1) (pending : s.pending = some (chosen, signal))
    (alive : holder s.log chosen.1 = some chosen.2) (fs : FileSystem)
    (hfs : ∀ a, Answers adapter.root s.log (.proc a) (fs a) []) {live : ProcessSnapshot}
    (hread : (adapter.process chosen.1).resultOn fs = .ok live) :
    ∃ s', Relation.ReflTransGen (Step adapter) s s' ∧ deliveries s.nextId s'.log = [chosen] := by
  have h := inv_of_reachable run
  have hstart : live.startTime = chosen.2 := by
    have hreaches := Interaction.reaches_run fs (adapter.process chosen.1).run
    rw [show Interaction.run fs (adapter.process chosen.1).run = .ok live from hread] at hreaches
    obtain ⟨a, content, stat, t, ht, hdecoded, hparse, hstat⟩ := adapter.process_startTime _ hreaches
    have ha : a = fs (.readFile (procPath adapter.root chosen.1 "stat")) :=
      Interaction.answer_of_mem_transcript fs (adapter.process chosen.1).run (ht ▸ List.mem_cons_self)
    have hshown := (hfs (.readFile (procPath adapter.root chosen.1 "stat"))).2 chosen.1 content stat rfl
      (ha ▸ hdecoded) hparse
    rw [hstat, ← Option.some.inj (alive.symm.trans hshown)]
  have hsame (pid : Pid) : holder (s.log ++ [.confirmed s.nextId chosen signal]) pid = holder s.log pid :=
    SlotLog.holder_concat_of_none slots rfl s.log pid
  have htranscript := transcript_verifiedCall signal hread hstart
  obtain ⟨s', hrun, hlog⟩ := exists_still_run adapter (s := { s with
      log := s.log ++ [.confirmed s.nextId chosen signal]
      call := some (s.nextId, verifiedCall adapter chosen signal)
      nextId := s.nextId + 1 }) (still fs) (reachedBy chosen) rfl fun x hx => by
    rw [htranscript] at hx
    rcases List.mem_append.mp hx with hx | hx
    · obtain ⟨y, hy, rfl⟩ := List.mem_map.mp hx
      rw [Interaction.answer_of_mem_transcript fs _ hy]
      exact (hfs y.1).congr hsame
    · obtain rfl := List.mem_singleton.mp hx
      simp only [Answers, if_pos (holder_pos h.possible alive), hsame]
      exact ⟨chosen.2, alive, rfl⟩
  refine ⟨s', .head (.confirm chosen signal idle selected pending) hrun, ?_⟩
  have hnone : deliveries s.nextId s.log = [] :=
    deliveries_eq_nil h.possible (List.Subset.refl _) (by simp [h.answersOf_nextId])
  have hreads : deliveries s.nextId ((accesses ((adapter.process chosen.1).run.transcript fs)).map
      fun x => .answered s.nextId x.1 x.2 (reachedBy chosen x.1)) = [] := by
    simp [deliveries, accesses, List.flatMap_map, reachedBy]
  rw [hlog, htranscript, List.map_append, deliveries_append, deliveries_append, deliveries_append,
    hnone, hreads]
  simp [deliveries, reachedBy]

end Progress

/-- The user picks a process, which exits while the confirmation is pending. -/
theorem kill_workflow_safe_after_exit : ∃ s, Reachable hostAdapter s ∧
    .confirmed 0 (4242, 98765) .term ∈ s.log ∧ EndedBeforeStatRead hostAdapter s.log 0 (4242, 98765) ∧
    deliveries 0 s.log = [] := by
  have h₀ : Reachable hostAdapter initial := .refl
  have h₁ := h₀.tail (.start (4242, 98765)
    ⟨by simp [SlotLog.Allows, slots, initial, SlotLog.holder], by decide⟩)
  have h₂ := h₁.tail (.refresh (mockTick 1000 [snap 4242 1 98765 0 1000]) rfl)
  have h₃ := h₂.tail (.select 4242 rfl)
  have h₄ := h₃.tail (.request 4242 (snap 4242 1 98765 0 1000) .term rfl rfl (by decide))
  have h₅ := h₄.tail (.stop (4242, 98765) ⟨rfl, trivial⟩)
  have h₆ := h₅.tail (.confirm (4242, 98765) .term rfl rfl rfl)
  have h₇ := h₆.tail (.answer 0 (statRead hostAdapter 4242) _ (.error .notFound) [] rfl
    ⟨trivial, rfl, by simp [decoded]⟩)
  have hended : EndedBeforeStatRead hostAdapter _ 0 (4242, 98765) :=
    ⟨.error .notFound, [], [.started (4242, 98765), .ended (4242, 98765), .confirmed 0 (4242, 98765) .term],
      [], rfl, rfl, by simp⟩
  have hsafe := (kill_workflow_safe hostAdapter _ h₇ 0).2 (4242, 98765) .term (by simp [initial])
  exact ⟨_, h₇, by simp [initial], hended, hsafe.2.1 hended⟩

end ProcessExplorer.Control
