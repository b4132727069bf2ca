import ProcessExplorer.Gui.App
import ProcessExplorer.Intelligence.KernelLog
import ProcessExplorer.Investigation.GrowthRules

/-! What the window shows belongs to the process that is selected, and what it sends goes to a process that was
shown, in every order of clicks, refreshes and steps of the kernel. -/
namespace ProcessExplorer.Gui
open Library Model Telemetry Telemetry.Linux Intelligence Investigation Relation
open Control (Event deliveries)

/-- Everything that is kept from an earlier frame is about the selected pid. -/
structure SherApp.Owned (app : SherApp) : Prop where
  finding : ∀ cached ∈ app.cachedFinding, app.selected = some cached.pid
  hotFunctions : ∀ cached ∈ app.cachedHotFunctions, app.selected = some cached.1
  syscalls : ∀ cached ∈ app.cachedSyscalls, app.selected = some cached.1
  pending : ∀ pending ∈ app.pendingSignal, app.selected = some pending.1.1
  signalResult : ∀ result ∈ app.lastSignalResult, app.selected = some result.1
  exportResult : ∀ result ∈ app.lastExportResult, app.selected = some result.1

section Steps
variable {adapter : LinuxAdapter} {lower : Lowercase} {start w w' : Window}

theorem askWhy_eq {app app' : SherApp} {order : Visit HistoryKey} {live : LiveReads} {tab : DetailTab} {pid : Pid}
    (h : app.askWhy order live tab pid = some app') : ∃ finding, app.why order live tab pid = some finding ∧
      app' = { app with cachedFinding := some ⟨pid, tab, finding⟩ } := by
  simp only [SherApp.askWhy, SherApp.findingFor, Option.any_none, Bool.false_eq_true, if_false,
    Option.map_eq_some_iff] at h
  obtain ⟨finding, hwhy, rfl⟩ := h
  exact ⟨finding, hwhy, rfl⟩

/-- While a call runs, the click it is made for is still pending. -/
def Blocked (w : Window) : Prop :=
  ∀ id chosen signal rest, w.call = some (id, chosen, signal, rest) → w.app.pendingSignal = some (chosen, signal)

theorem Blocked.step (h : Blocked w) (hs : Step adapter lower w w') : Blocked w' := by
  have hidle {app : SherApp} (idle : w.call = none) : Blocked { w with app := app } := by
    intro id chosen signal rest hc
    cases idle.symm.trans hc
  cases hs with
  | start process hp => exact h
  | stop process hp => exact h
  | confirm shown chosen signal idle details pending same =>
    intro id chosen' signal' rest hc
    obtain ⟨-, rfl, rfl, -⟩ : _ ∧ _ ∧ _ ∧ _ := by simpa using hc
    exact pending
  | answer id chosen signal call next answer reached running hp =>
    intro id' chosen' signal' rest hc
    obtain ⟨-, rfl, rfl, -⟩ : _ ∧ _ ∧ _ ∧ _ := by simpa using hc
    exact h id chosen signal _ running
  | finish id chosen signal result running =>
    intro id' chosen' signal' rest hc
    cases hc
  | _ => exact hidle ‹_›

theorem SherApp.Owned.step (h : w.app.Owned) (hb : Blocked w) (hs : Step adapter lower w w') : w'.app.Owned := by
  cases hs with
  | refresh t idle =>
    obtain ⟨intel, error, heq⟩ := refresh_eq w.app t
    simp only [heq]
    exact ⟨h.finding, h.hotFunctions, h.syscalls, h.pending, h.signalResult, h.exportResult⟩
  | select row idle drawn => constructor <;> simp [SherApp.select]
  | why tab process order live app idle details asks answered =>
    obtain ⟨finding, -, rfl⟩ := askWhy_eq answered
    exact ⟨by simpa using details.1, h.hotFunctions, h.syscalls, h.pending, h.signalResult, h.exportResult⟩
  | profile process result idle details =>
    exact ⟨h.finding, by simpa using details.1, h.syscalls, h.pending, h.signalResult, h.exportResult⟩
  | trace process result idle details =>
    exact ⟨h.finding, h.hotFunctions, by simpa using details.1, h.pending, h.signalResult, h.exportResult⟩
  | exportReport process result idle details =>
    exact ⟨h.finding, h.hotFunctions, h.syscalls, h.pending, h.signalResult, by simpa using details.1⟩
  | request process signal idle details offered =>
    exact ⟨h.finding, h.hotFunctions, h.syscalls, by simpa using details.1, h.signalResult, h.exportResult⟩
  | cancel shown chosen signal idle details pending same =>
    exact ⟨h.finding, h.hotFunctions, h.syscalls, by simp, h.signalResult, h.exportResult⟩
  | finish id chosen signal result running =>
    have hselected := h.pending _ (hb id chosen signal _ running)
    exact ⟨h.finding, h.hotFunctions, h.syscalls, by simp, by simpa using hselected, h.exportResult⟩
  | _ => exact ⟨h.finding, h.hotFunctions, h.syscalls, h.pending, h.signalResult, h.exportResult⟩

/-- It was so in a state that the window has gone through since it was opened. -/
def Once (adapter : LinuxAdapter) (lower : Lowercase) (start w : Window) (P : Window → Prop) : Prop :=
  ∃ earlier, Leads adapter lower start earlier ∧ Leads adapter lower earlier w ∧ P earlier

theorem Once.step {P : Window → Prop} (h : Once adapter lower start w P) (hs : Step adapter lower w w') :
    Once adapter lower start w' P := by
  obtain ⟨earlier, hstart, hleads, hp⟩ := h
  exact ⟨earlier, hstart, hleads.tail hs, hp⟩

/-- The details of the process were on the screen, in the tab with the buttons that send signals. -/
abbrev ShownOnce (adapter : LinuxAdapter) (lower : Lowercase) (start w : Window) (process : HistoryKey) : Prop :=
  Once adapter lower start w fun earlier => earlier.app.Details .overview process

/-- The finding is what its rule found about a process of this pid that was on the screen. -/
abbrev FoundOnce (adapter : LinuxAdapter) (lower : Lowercase) (start w : Window) (cached : CachedFinding) : Prop :=
  Once adapter lower start w fun earlier => ∃ startTime order live,
    earlier.app.Details cached.tab (cached.pid, startTime) ∧ cached.tab.AsksWhy ∧
    earlier.app.why order live cached.tab cached.pid = some cached.finding

/-- Where what is kept comes from. -/
structure Traced (adapter : LinuxAdapter) (lower : Lowercase) (start w : Window) : Prop where
  finding : ∀ cached ∈ w.app.cachedFinding, FoundOnce adapter lower start w cached
  pending : ∀ pending ∈ w.app.pendingSignal, ShownOnce adapter lower start w pending.1
  confirmed : ∀ id chosen signal, .confirmed id chosen signal ∈ w.log → ShownOnce adapter lower start w chosen

theorem Traced.step (hw : Leads adapter lower start w) (h : Traced adapter lower start w)
    (hs : Step adapter lower w w') : Traced adapter lower start w' := by
  have hfinding (cached : CachedFinding) (hc : cached ∈ w.app.cachedFinding) : FoundOnce adapter lower start w' cached :=
    (h.finding cached hc).step hs
  have hpending (pending : HistoryKey × Signal) (hp : pending ∈ w.app.pendingSignal) :
      ShownOnce adapter lower start w' pending.1 := (h.pending pending hp).step hs
  have hconfirmed (id : ℕ) (chosen : HistoryKey) (signal : Signal) (hm : .confirmed id chosen signal ∈ w.log) :
      ShownOnce adapter lower start w' chosen := (h.confirmed id chosen signal hm).step hs
  have hnow {P : Window → Prop} (hp : P w) : Once adapter lower start w' P := ⟨w, hw, .single hs, hp⟩
  cases hs with
  | start process hp => exact ⟨hfinding, hpending, fun id c s hm => hconfirmed id c s (by simpa using hm)⟩
  | stop process hp => exact ⟨hfinding, hpending, fun id c s hm => hconfirmed id c s (by simpa using hm)⟩
  | answer id chosen signal call next answer reached running hp =>
    exact ⟨hfinding, hpending, fun id c s hm => hconfirmed id c s (by simpa using hm)⟩
  | refresh t idle =>
    obtain ⟨intel, error, heq⟩ := refresh_eq w.app t
    have hcached : (w.app.refresh t).cachedFinding = w.app.cachedFinding := by rw [heq]
    have hsignal : (w.app.refresh t).pendingSignal = w.app.pendingSignal := by rw [heq]
    exact ⟨fun cached hc => hfinding cached (hcached ▸ hc), fun pending hp => hpending pending (hsignal ▸ hp),
      hconfirmed⟩
  | select row idle drawn => exact ⟨by simp [SherApp.select], by simp [SherApp.select], hconfirmed⟩
  | why tab process order live app idle details asks answered =>
    obtain ⟨finding, hwhy, rfl⟩ := askWhy_eq answered
    refine ⟨?_, hpending, hconfirmed⟩
    rintro cached hc
    obtain rfl := Option.some.inj hc
    exact hnow ⟨process.2, order, live, details, asks, hwhy⟩
  | request process signal idle details offered =>
    refine ⟨hfinding, ?_, hconfirmed⟩
    rintro pending hp
    obtain rfl := Option.some.inj hp
    exact hnow details
  | cancel shown chosen signal idle details pending same => exact ⟨hfinding, by simp, hconfirmed⟩
  | confirm shown chosen signal idle details pending same =>
    refine ⟨hfinding, hpending, fun id c s hm => ?_⟩
    rcases List.mem_append.mp hm with hm | hm
    · exact hconfirmed id c s hm
    · obtain ⟨-, rfl, rfl⟩ : _ ∧ _ ∧ _ := by simpa using hm
      exact hpending _ pending
  | finish id chosen signal result running => exact ⟨hfinding, by simp, hconfirmed⟩
  | _ => exact ⟨hfinding, hpending, hconfirmed⟩

/-- The button never panics: the rules conclude, and the other tabs have no such button. -/
theorem askWhy_isSome {app : SherApp} {tab : DetailTab} (asks : tab.AsksWhy) (order : Visit HistoryKey)
    (live : LiveReads) (pid : Pid) : (app.askWhy order live tab pid).isSome := by
  have hconcludes : ∃ finding, ({ app with cachedFinding := none } : SherApp).why order live tab pid = some finding := by
    simp only [DetailTab.AsksWhy, List.mem_cons, List.not_mem_nil, or_false] at asks
    rcases asks with rfl | rfl | rfl | rfl
    · exact (concludes_whyMemory _ _ _ _).imp fun _ h => h.1
    · exact (concludes_whyCpu _ _ _).imp fun _ h => h.1
    · exact (concludes_whyNetwork _ _ _).imp fun _ h => h.1
    · exact (concludes_whyDisk _ _ _).imp fun _ h => h.1
  obtain ⟨finding, hwhy⟩ := hconcludes
  simp [SherApp.askWhy, SherApp.findingFor, hwhy]

/-- Every click and every step of the kernel is one of the workflow, or does not concern it. -/
theorem workflow_step (hs : Step adapter lower w w') :
    Control.Step adapter w.workflow w'.workflow ∨ w'.workflow = w.workflow := by
  have hidle (idle : w.call = none) : w.workflow.call = none := by simp [Window.workflow, idle]
  cases hs with
  | start process hp => exact .inl (.start process hp)
  | stop process hp => exact .inl (.stop process hp)
  | refresh t idle =>
    obtain ⟨intel, error, heq⟩ := refresh_eq w.app t
    have hworkflow : Window.workflow { w with app := w.app.refresh t } =
        { w.workflow with intel := (w.workflow.intel.refreshAt t).1 } := by
      rw [Window.workflow, refresh_intel, heq]
      rfl
    exact .inl (hworkflow ▸ .refresh t (hidle idle))
  | search filter idle => exact .inr rfl
  | toggle row expanded idle drawn hasChildren => exact .inr rfl
  | select row idle drawn => exact .inl (.select row.pid (hidle idle))
  | openTab old tab process idle details => exact .inr rfl
  | why tab process order live app idle details asks answered =>
    obtain ⟨finding, -, rfl⟩ := askWhy_eq answered
    exact .inr rfl
  | profile process result idle details => exact .inr rfl
  | trace process result idle details => exact .inr rfl
  | exportReport process result idle details => exact .inr rfl
  | pick process signal idle details => exact .inr rfl
  | request process signal idle details offered =>
    obtain ⟨hselected, -, snapshot, hprocess, hstart⟩ := details
    have hstep : Control.Step adapter w.workflow
        { w.workflow with pending := some ((process.1, snapshot.startTime), signal) } :=
      .request process.1 snapshot signal (hidle idle) hselected hprocess
    rw [hstart] at hstep
    exact .inl hstep
  | cancel shown chosen signal idle details pending same => exact .inl (.cancel (hidle idle))
  | confirm shown chosen signal idle details pending same =>
    exact .inl (.confirm chosen signal (hidle idle) (same ▸ details.1) pending)
  | answer id chosen signal call next answer reached running hp =>
    exact .inl (.answer id call next answer reached (by simp [Window.workflow, running]) hp)
  | finish id chosen signal result running =>
    exact .inl (.finish id result (by simp [Window.workflow, running]))

theorem kept_of_leads {t : Tick} (h : Leads adapter lower (opened t) w) :
    w.app.Owned ∧ Blocked w ∧ Traced adapter lower (opened t) w := by
  induction h with
  | refl =>
    obtain ⟨error, heq⟩ := opened_eq t
    rw [heq]
    refine ⟨?_, nofun, ?_⟩
    · constructor <;> simp [SherApp.blank]
    · constructor <;> simp [SherApp.blank]
  | tail h hs ih =>
    obtain ⟨howned, hblocked, htraced⟩ := ih
    exact ⟨howned.step hblocked hs, hblocked.step hs, htraced.step h hs⟩

/-- The window refines the workflow. -/
theorem workflow_of_leads {t : Tick} (h : Leads adapter lower (opened t) w) :
    Control.Reachable adapter w.workflow := by
  induction h with
  | refl =>
    obtain ⟨error, heq⟩ := opened_eq t
    exact heq ▸ .single (.refresh t rfl)
  | tail h hs ih =>
    rcases workflow_step hs with hstep | hsame
    · exact ih.tail hstep
    · exact hsame ▸ ih

/-- A call can run to its end while the kernel stands still. -/
theorem exists_still_call (answer : ∀ call, SysCall.Answer call) (reached : SysCall → List HistoryKey) {id : ℕ}
    {chosen : HistoryKey} {signal : Signal} {p : Interaction SysCall SysCall.Answer (Result Unit)}
    (hcall : w.call = some (id, chosen, signal, p))
    (h : ∀ x ∈ p.transcript answer, Control.Answers adapter.root w.log x.1 x.2 (reached x.1)) :
    ∃ w', Leads adapter lower w w' ∧ w'.log = w.log ++
      (p.transcript answer).map (fun x => .answered id x.1 x.2 (reached x.1)) ∧
      w'.app.lastSignalResult = some (chosen.1, signal, p.run answer) := by
  induction p generalizing w with
  | pure result => exact ⟨_, .single (.finish id chosen signal result hcall), by simp [Interaction.transcript], rfl⟩
  | ask call next ih =>
    have hp : Control.Possible adapter.root w.log (.answered id call (answer call) (reached call)) :=
      ⟨trivial, h ⟨call, answer call⟩ List.mem_cons_self⟩
    obtain ⟨w', hrun, hlog, hresult⟩ := ih (answer call) (w := { w with
      log := w.log ++ [.answered id call (answer call) (reached call)]
      call := some (id, chosen, signal, next (answer call)) }) rfl fun x hx =>
        (h x (List.mem_cons_of_mem _ hx)).congr (SlotLog.holder_concat_of_none Control.slots rfl w.log)
    exact ⟨w', .head (.answer id chosen signal call next _ _ hcall hp) hrun,
      by simp [hlog, Interaction.transcript], hresult⟩

theorem run_verifiedCall {chosen : HistoryKey} (signal : Signal) {fs : FileSystem} {live : ProcessSnapshot}
    (hread : (adapter.process chosen.1).resultOn fs = .ok live) (hstart : live.startTime = chosen.2) :
    (Control.verifiedCall adapter chosen signal).run (Control.still fs) = .ok () := by
  have hlive : Interaction.run (Control.still fs) (adapter.control.process chosen.1).run = .ok live :=
    (Interaction.run_embed SysCall.proc (Control.still fs) _).trans hread
  have hcheck : (if live.startTime ≠ chosen.2 then
      (throw (.pidReused chosen.1 chosen.2 live.startTime) : System Unit)
      else sendSignal chosen.1 signal) = sendSignal chosen.1 signal := if_neg (not_not.mpr hstart)
  rw [Control.verifiedCall, sendSignalVerified, ExceptT.run_bind, Interaction.run_bind, hlive]
  exact congrArg (fun x : System Unit => x.run.run (Control.still fs)) hcheck

/-- A click on confirm reaches the process that the prompt is about, if it is alive and can be read. -/
theorem confirmed_signal_arrives {t : Tick} {shown chosen : HistoryKey} {signal : Signal}
    (run : Leads adapter lower (opened t) w) (idle : w.call = none) (details : w.app.Details .overview shown)
    (pending : w.app.pendingSignal = some (chosen, signal)) (same : chosen.1 = shown.1)
    (alive : Control.holder w.log chosen.1 = some chosen.2) (fs : FileSystem)
    (hfs : ∀ x ∈ (adapter.process chosen.1).run.transcript fs,
      Control.Answers adapter.root w.log (.proc x.1) x.2 [])
    {live : ProcessSnapshot} (hread : (adapter.process chosen.1).resultOn fs = .ok live) :
    ∃ w', Leads adapter lower w w' ∧ deliveries w.nextId w'.log = [chosen] ∧
      w'.app.lastSignalResult = some (chosen.1, signal, .ok ()) := by
  have hinv := Control.inv_of_reachable (workflow_of_leads run)
  have hstart : live.startTime = chosen.2 := by
    have hreaches := Interaction.reaches_run fs (adapter.process chosen.1).run
    rw [show Interaction.run fs (adapter.process chosen.1).run = .ok live from hread] at hreaches
    obtain ⟨a, content, stat, t, ht, hdecoded, hparse, hstat⟩ := adapter.process_startTime _ hreaches
    have hfirst : Control.Answers adapter.root w.log (Control.statRead adapter chosen.1) a [] :=
      hfs ⟨.readFile (procPath adapter.root chosen.1 "stat"), a⟩ (ht ▸ List.mem_cons_self)
    rw [hstat, ← Option.some.inj (alive.symm.trans (hfirst.2 chosen.1 content stat rfl hdecoded hparse))]
  have hsame (pid : Pid) : Control.holder (w.log ++ [.confirmed w.nextId chosen signal]) pid =
      Control.holder w.log pid := SlotLog.holder_concat_of_none Control.slots rfl w.log pid
  have htranscript := Control.transcript_verifiedCall signal hread hstart
  obtain ⟨w', hrun, hlog, hresult⟩ : ∃ w', Leads adapter lower _ w' ∧ _ :=
    exists_still_call (w := { w with
      log := w.log ++ [.confirmed w.nextId chosen signal]
      call := some (w.nextId, chosen, signal, Control.verifiedCall adapter chosen signal)
      nextId := w.nextId + 1 }) (Control.still fs) (Control.reachedBy chosen) rfl fun x hx => by
    rw [htranscript] at hx
    rcases List.mem_append.mp hx with hx | hx
    · obtain ⟨y, hy, rfl⟩ := List.mem_map.mp hx
      exact (hfs y hy).congr hsame
    · obtain rfl := List.mem_singleton.mp hx
      simp only [Control.Answers, if_pos (Control.holder_pos hinv.possible alive), hsame]
      exact ⟨chosen.2, alive, rfl⟩
  have hcalled := hrun.head (.confirm shown chosen signal idle details pending same)
  have hfresh : Control.answersOf w.nextId w.log = [] := hinv.answersOf_nextId
  have hnone : deliveries w.nextId w.log = [] :=
    Control.deliveries_eq_nil hinv.possible (List.Subset.refl _) (by simp [hfresh])
  have hreads : deliveries w.nextId ((accesses ((adapter.process chosen.1).run.transcript fs)).map
      fun x => .answered w.nextId x.1 x.2 (Control.reachedBy chosen x.1)) = [] := by
    simp [deliveries, accesses, List.flatMap_map, Control.reachedBy]
  refine ⟨w', hcalled, ?_, hresult.trans ?_⟩
  · rw [hlog, htranscript, List.map_append, Control.deliveries_append, Control.deliveries_append,
      Control.deliveries_append, hnone, hreads]
    simp [deliveries, Control.reachedBy]
  · rw [run_verifiedCall signal hread hstart]

end Steps

/-- What is shown of an earlier click is about the selected pid, a finding is what its rule found about a process
of that pid while it was on the screen, and no rule panics over what its reads return. -/
theorem window_keeps_to_selected (adapter : LinuxAdapter) (lower : Lowercase) (t : Tick) (w : Window)
    (run : Leads adapter lower (opened t) w) :
    w.app.Owned ∧ (∀ cached ∈ w.app.cachedFinding, FoundOnce adapter lower (opened t) w cached) ∧
      ∀ tab : DetailTab, tab.AsksWhy → ∀ order live pid, (w.app.askWhy order live tab pid).isSome := by
  obtain ⟨howned, -, htraced⟩ := kept_of_leads run
  exact ⟨howned, htraced.finding, fun tab asks order live pid => askWhy_isSome asks order live pid⟩

def daemon : ProcessSnapshot := snap 42 1 98765 0 1000

/-- The daemon has started and is listed. -/
def listed : Window := ⟨(opened (mockTick 0 [])).app.refresh (mockTick 1000 [daemon]), [.started (42, 98765)], none, 0⟩

theorem leads_listed : Leads hostAdapter .ascii (opened (mockTick 0 [])) listed := by
  refine .tail (.single (.start (42, 98765) ⟨?_, by decide⟩)) (.refresh (mockTick 1000 [daemon]) rfl)
  simp [SlotLog.Allows, Control.slots, opened, SlotLog.holder]

theorem draws_listed : listed.app.Draws .ascii ⟨42, 0, false⟩ :=
  ⟨.stored, .stored, 2, [⟨42, 0, false⟩], by decide +kernel, by simp, by decide +kernel⟩

/-- Its details are shown. -/
def clicked : Window := { listed with app := listed.app.select 42 }

theorem leads_clicked : Leads hostAdapter .ascii (opened (mockTick 0 [])) clicked :=
  leads_listed.tail (.select ⟨42, 0, false⟩ rfl draws_listed)

theorem details_clicked : clicked.app.Details .overview (42, 98765) := ⟨rfl, rfl, daemon, by decide, rfl⟩

/-- The user opens another tab there and asks why. -/
theorem window_keeps_to_selected_why : ∃ w, Leads hostAdapter .ascii (opened (mockTick 0 [])) w ∧
    ∃ finding, w.app.cachedFinding = some ⟨42, .network, finding⟩ ∧ w.app.selected = some 42 ∧
      FoundOnce hostAdapter .ascii (opened (mockTick 0 [])) w ⟨42, .network, finding⟩ := by
  have hopen := leads_clicked.tail (.openTab .overview .network (42, 98765) rfl details_clicked)
  have hdetails : ({ clicked.app with selectedTab := .network } : SherApp).Details .network (42, 98765) :=
    ⟨rfl, rfl, daemon, by decide, rfl⟩
  have hasks : DetailTab.AsksWhy .network := by simp [DetailTab.AsksWhy]
  obtain ⟨app, happ⟩ := Option.isSome_iff_exists.mp (askWhy_isSome hasks .stored (failedReads 42) 42)
  have hwhy := hopen.tail (.why .network (42, 98765) .stored (failedReads 42) app rfl hdetails hasks happ)
  obtain ⟨finding, -, rfl⟩ := askWhy_eq happ
  obtain ⟨howned, hfound, -⟩ := window_keeps_to_selected hostAdapter .ascii (mockTick 0 []) _ hwhy
  exact ⟨_, hwhy, finding, rfl, howned.finding _ rfl, hfound _ rfl⟩

/-- In every interleaving a signal goes to one process, whose details were shown and which the user confirmed, or
to one that took over its pid during the call. -/
theorem window_signals_confirmed (adapter : LinuxAdapter) (lower : Lowercase) (t : Tick) (w : Window)
    (run : Leads adapter lower (opened t) w) (id : ℕ) (process : HistoryKey) (hp : process ∈ deliveries id w.log) :
    deliveries id w.log = [process] ∧ ∃ chosen signal, .confirmed id chosen signal ∈ w.log ∧
      ShownOnce adapter lower (opened t) w chosen ∧
      (process ≠ chosen → Control.RecycledInWindow adapter w.log id chosen process) := by
  have hinv := Control.inv_of_reachable (workflow_of_leads run)
  obtain ⟨-, -, htraced⟩ := kept_of_leads run
  obtain ⟨chosen, signal, hm⟩ := Control.confirmed_of_delivery hinv (List.ne_nil_of_mem hp)
  have honce : deliveries id w.log = [process] := by
    have hlength : (deliveries id w.log).length ≤ 1 := Control.deliveries_length_le hinv hm
    obtain ⟨other, hother⟩ := List.length_eq_one_iff.mp
      (le_antisymm hlength (List.length_pos_of_mem hp))
    rw [hother, List.mem_singleton] at hp
    rw [hother, hp]
  exact ⟨honce, chosen, signal, hm, htraced.confirmed id chosen signal hm,
    Control.recycled_of_delivery hinv hm hp⟩

/-- The daemon's files, while nothing else happens. -/
theorem window_signals_confirmed_daemon : ∃ w, Leads hostAdapter .ascii (opened (mockTick 0 [])) w ∧
    deliveries 0 w.log = [(42, 98765)] ∧ ∃ chosen signal, .confirmed 0 chosen signal ∈ w.log ∧
      ShownOnce hostAdapter .ascii (opened (mockTick 0 [])) w chosen := by
  have hrequest := leads_clicked.tail (.request (42, 98765) .term rfl details_clicked (by simp))
  obtain ⟨snapshot, hread⟩ := exists_eq_ok (x := (hostAdapter.process 42).resultOn listeningDaemon) (by decide +kernel)
  have hpaths : ∀ a ∈ ((hostAdapter.process 42).run.transcript listeningDaemon).map (·.1),
      (procPath "/proc" 42 "").toList <+: a.path.toList := by decide +kernel
  have hshown : shownStart listeningDaemon "/proc" 42 = some 98765 := by decide +kernel
  have halive : Control.holder clicked.log 42 = some 98765 := by rfl
  have hanswers (x : Σ a : Access, a.Answer)
      (hx : x ∈ (hostAdapter.process 42).run.transcript listeningDaemon) :
      Control.Answers "/proc" clicked.log (.proc x.1) x.2 [] := by
    have hin : InDirectory "/proc" 42 x.1 := hpaths x.1 (List.mem_map_of_mem hx)
    obtain ⟨a, answer⟩ := x
    obtain rfl : answer = listeningDaemon a := Interaction.answer_of_mem_transcript listeningDaemon _ hx
    cases a with
    | readFile path =>
      refine ⟨rfl, ?_⟩
      rintro pid content stat rfl hdecoded hparse
      obtain rfl := inDirectory_unique hin (inDirectory_procPath "/proc" pid (by decide))
      rw [halive, startTime_of_shown hshown hdecoded hparse]
    | _ => rfl
  obtain ⟨w, hrun, hdelivered, -⟩ := confirmed_signal_arrives hrequest rfl
    (details_clicked : SherApp.Details _ _ _) rfl rfl halive listeningDaemon hanswers hread
  have hall := hrequest.trans hrun
  have hfirst : deliveries 0 w.log = [(42, 98765)] := hdelivered
  obtain ⟨-, chosen, signal, hm, honce, -⟩ := window_signals_confirmed hostAdapter .ascii (mockTick 0 []) w hall 0
    (42, 98765) (by simp [hfirst])
  exact ⟨w, hall, hfirst, chosen, signal, hm, honce⟩

end ProcessExplorer.Gui
