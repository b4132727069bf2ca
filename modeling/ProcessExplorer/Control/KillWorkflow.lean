import Mathlib.Logic.Relation
import ProcessExplorer.Intelligence.Queries
import ProcessExplorer.Intelligence.SendSignal
import ProcessExplorer.Library.SlotLog

/-! The kill workflow of the command line and of the window, interleaved with a kernel that
starts and ends processes. Whatever happens is appended to one log. -/
namespace ProcessExplorer.Control
open Library Model Telemetry Telemetry.Linux Intelligence

/-- A process is named by its pid and start time. It ends when its entry leaves the process table:
one that has exited but is not yet reaped still has its entry. -/
inductive Event where
  | started (process : HistoryKey)
  | ended (process : HistoryKey)
  | confirmed (id : ℕ) (chosen : HistoryKey) (signal : Signal)
  /-- A call to the kernel made for a confirmation, and whom it delivered the signal to. -/
  | answered (id : ℕ) (call : SysCall) (answer : call.Answer) (reached : List HistoryKey)

/-- The pids are the slots of the process table. -/
def slots : Event → Option (SlotChange Pid UInt64)
  | .started process => some (.taken process.1 process.2)
  | .ended process => some (.left process.1 process.2)
  | _ => none

/-- The start time of the process that holds a pid. -/
abbrev holder (log : List Event) (pid : Pid) : Option UInt64 := SlotLog.holder slots log pid

/-- What the kernel may answer. A stat line that can be read and parsed is that of the holder;
a positive pid names the one process that holds it, any other pid a group; all else is open. -/
def Answers (root : String) (log : List Event) :
    (call : SysCall) → call.Answer → List HistoryKey → Prop
  | .proc (.readFile path), answer, reached => reached = [] ∧
      ∀ pid content stat, path = procPath root pid "stat" → decoded answer = .ok content →
        parseStatLine content path = .ok stat → holder log pid = some stat.starttime
  | .proc _, _, reached => reached = []
  | .kill pid _, .ok (), reached =>
      if 0 < pid then ∃ startTime, holder log pid = some startTime ∧ reached = [(pid, startTime)]
      else ∀ process ∈ reached, holder log process.1 = some process.2
  | .kill _ _, .error _, reached => reached = []

/-- What may happen next. No process ever has the pid and start time of an earlier one. -/
def Possible (root : String) (log : List Event) (e : Event) : Prop :=
  SlotLog.Allows slots log e ∧ match e with
    | .started process => 0 < process.1
    | .answered _ call answer reached => Answers root log call answer reached
    | _ => True

structure State where
  log : List Event
  intel : ProcessIntelligence
  selected : Option Pid
  pending : Option (HistoryKey × Signal)
  /-- The call in progress, with the confirmation it is made for. -/
  call : Option (ℕ × Interaction SysCall SysCall.Answer (Result Unit))
  nextId : ℕ

def initial : State := ⟨[], .new, none, none, none, 0⟩

def verifiedCall (adapter : LinuxAdapter) (chosen : HistoryKey) (signal : Signal) :
    Interaction SysCall SysCall.Answer (Result Unit) :=
  (sendSignalVerified adapter.control chosen.1 chosen.2 signal).run

/-- One step of the kernel or of the user interface, which does nothing else during a call. The
command line selects the pid it is given, asks once and confirms on a yes or without asking. -/
inductive Step (adapter : LinuxAdapter) (s : State) : State → Prop
  | start (process : HistoryKey) (h : Possible adapter.root s.log (.started process)) :
      Step adapter s { s with log := s.log ++ [.started process] }
  | stop (process : HistoryKey) (h : Possible adapter.root s.log (.ended process)) :
      Step adapter s { s with log := s.log ++ [.ended process] }
  -- How old the readings of a refresh are is left open, and so are the readings.
  | refresh (t : Tick) (idle : s.call = none) :
      Step adapter s { s with intel := (s.intel.refreshAt t).1 }
  | select (pid : Pid) (idle : s.call = none) :
      Step adapter s { s with selected := some pid, pending := none }
  | request (pid : Pid) (process : ProcessSnapshot) (signal : Signal) (idle : s.call = none)
      (selected : s.selected = some pid) (shown : s.intel.process pid = some process) :
      Step adapter s { s with pending := some ((pid, process.startTime), signal) }
  | cancel (idle : s.call = none) : Step adapter s { s with pending := none }
  | confirm (chosen : HistoryKey) (signal : Signal) (idle : s.call = none)
      (selected : s.selected = some chosen.1) (pending : s.pending = some (chosen, signal)) :
      Step adapter s { s with
        log := s.log ++ [.confirmed s.nextId chosen signal]
        call := some (s.nextId, verifiedCall adapter chosen signal)
        nextId := s.nextId + 1 }
  | answer (id : ℕ) (call : SysCall) (next : call.Answer → Interaction SysCall SysCall.Answer (Result Unit))
      (answer : call.Answer) (reached : List HistoryKey) (running : s.call = some (id, .ask call next))
      (h : Possible adapter.root s.log (.answered id call answer reached)) :
      Step adapter s { s with
        log := s.log ++ [.answered id call answer reached]
        call := some (id, next answer) }
  | finish (id : ℕ) (result : Result Unit) (running : s.call = some (id, .pure result)) :
      Step adapter s { s with call := none, pending := none }

abbrev Reachable (adapter : LinuxAdapter) (s : State) : Prop :=
  Relation.ReflTransGen (Step adapter) initial s

/-- What the kernel answered during the call for a confirmation. -/
def answersOf (id : ℕ) (log : List Event) : Interaction.Transcript SysCall SysCall.Answer :=
  log.filterMap fun
    | .answered i call answer _ => if i = id then some ⟨call, answer⟩ else none
    | _ => none

/-- The processes that got a signal because of a confirmation. -/
def deliveries (id : ℕ) (log : List Event) : List HistoryKey :=
  log.flatMap fun
    | .answered i _ _ reached => if i = id then reached else []
    | _ => []

section Log
variable {id : ℕ} {log : List Event}

@[simp] theorem answersOf_append (l r : List Event) :
    answersOf id (l ++ r) = answersOf id l ++ answersOf id r := List.filterMap_append

@[simp] theorem deliveries_append (l r : List Event) :
    deliveries id (l ++ r) = deliveries id l ++ deliveries id r := List.flatMap_append

theorem deliveries_answered (call : SysCall) (answer : call.Answer) (reached : List HistoryKey)
    (rest : List Event) : deliveries id (.answered id call answer reached :: rest) =
      reached ++ deliveries id rest := by simp [deliveries]

@[simp] theorem answersOf_started (process : HistoryKey) : answersOf id [.started process] = [] := rfl

@[simp] theorem answersOf_ended (process : HistoryKey) : answersOf id [.ended process] = [] := rfl

@[simp] theorem answersOf_confirmed (i : ℕ) (chosen : HistoryKey) (signal : Signal) :
    answersOf id [.confirmed i chosen signal] = [] := rfl

theorem answersOf_answered (i : ℕ) (call : SysCall) (answer : call.Answer) (reached : List HistoryKey) :
    answersOf id [.answered i call answer reached] = if i = id then [⟨call, answer⟩] else [] := by
  simp only [answersOf, List.filterMap_cons, List.filterMap_nil]
  split <;> simp_all

end Log

/-- The log is a possible one, and every call has followed its program so far. -/
structure Inv (adapter : LinuxAdapter) (s : State) : Prop where
  possible : Justified (Possible adapter.root) s.log
  old : ∀ id chosen signal, .confirmed id chosen signal ∈ s.log → id < s.nextId
  unique : ∀ id chosen signal chosen' signal', .confirmed id chosen signal ∈ s.log →
    .confirmed id chosen' signal' ∈ s.log → chosen = chosen' ∧ signal = signal'
  asked : ∀ id, answersOf id s.log ≠ [] → ∃ chosen signal, .confirmed id chosen signal ∈ s.log
  followed : ∀ id chosen signal, .confirmed id chosen signal ∈ s.log →
    ∃ rest, (verifiedCall adapter chosen signal).Reaches (answersOf id s.log) rest
  running : ∀ id rest, s.call = some (id, rest) → ∃ chosen signal,
    .confirmed id chosen signal ∈ s.log ∧
    (verifiedCall adapter chosen signal).Reaches (answersOf id s.log) rest

section Preservation
variable {adapter : LinuxAdapter} {s : State}

theorem inv_initial : Inv adapter initial := by
  constructor <;> simp [initial, answersOf]

/-- The kernel moves on by itself. -/
theorem Inv.kernel (h : Inv adapter s) {e : Event} (he : Possible adapter.root s.log e)
    (hconfirmed : ∀ id chosen signal, e ≠ .confirmed id chosen signal)
    (hanswers : ∀ id, answersOf id [e] = []) : Inv adapter { s with log := s.log ++ [e] } where
  possible := h.possible.concat he
  old id chosen signal hm := h.old id chosen signal (by simpa [(hconfirmed _ _ _).symm] using hm)
  unique id chosen signal chosen' signal' hm hm' := h.unique id chosen signal chosen' signal'
    (by simpa [(hconfirmed _ _ _).symm] using hm) (by simpa [(hconfirmed _ _ _).symm] using hm')
  asked id hne := by
    obtain ⟨chosen, signal, hm⟩ := h.asked id (by simpa [hanswers] using hne)
    exact ⟨chosen, signal, by simp [hm]⟩
  followed id chosen signal hm := by
    simpa [hanswers] using h.followed id chosen signal (by simpa [(hconfirmed _ _ _).symm] using hm)
  running id rest hc := by
    obtain ⟨chosen, signal, hm, hr⟩ := h.running id rest hc
    exact ⟨chosen, signal, by simp [hm], by simpa [hanswers] using hr⟩

/-- The user interface moves on outside of calls. -/
theorem Inv.idle (h : Inv adapter s) {s' : State} (hlog : s'.log = s.log) (hid : s'.nextId = s.nextId)
    (hcall : s'.call = none) : Inv adapter s' where
  possible := hlog ▸ h.possible
  old := by simpa only [hlog, hid] using h.old
  unique := by simpa only [hlog] using h.unique
  asked := by simpa only [hlog] using h.asked
  followed := by simpa only [hlog] using h.followed
  running id rest hc := by simp [hcall] at hc

theorem Inv.answersOf_nextId (h : Inv adapter s) : answersOf s.nextId s.log = [] := by
  by_contra hne
  obtain ⟨chosen, signal, hm⟩ := h.asked s.nextId hne
  exact absurd (h.old _ _ _ hm) (lt_irrefl _)

theorem Inv.confirm (h : Inv adapter s) (chosen : HistoryKey) (signal : Signal) : Inv adapter { s with
    log := s.log ++ [.confirmed s.nextId chosen signal]
    call := some (s.nextId, verifiedCall adapter chosen signal)
    nextId := s.nextId + 1 } where
  possible := h.possible.concat ⟨trivial, trivial⟩
  old id chosen' signal' hm := by
    rcases List.mem_append.mp hm with hm | hm
    · exact Nat.lt_succ_of_lt (h.old _ _ _ hm)
    · simp only [List.mem_singleton, Event.confirmed.injEq] at hm
      exact hm.1 ▸ Nat.lt_succ_self _
  unique id c₁ s₁ c₂ s₂ h₁ h₂ := by
    have hnew {id c s'} (hm : Event.confirmed id c s' ∈ s.log) : id ≠ s.nextId := (h.old _ _ _ hm).ne
    simp only [List.mem_append, List.mem_singleton, Event.confirmed.injEq] at h₁ h₂
    rcases h₁ with h₁ | ⟨rfl, rfl, rfl⟩ <;> rcases h₂ with h₂ | ⟨hid, rfl, rfl⟩
    · exact h.unique _ _ _ _ _ h₁ h₂
    · exact absurd hid (hnew h₁)
    · exact absurd rfl (hnew h₂)
    · exact ⟨rfl, rfl⟩
  asked id hne := by
    obtain ⟨c, s', hm⟩ := h.asked id (by simpa using hne)
    exact ⟨c, s', by simp [hm]⟩
  followed id c s' hm := by
    simp only [List.mem_append, List.mem_singleton, Event.confirmed.injEq] at hm
    rcases hm with hm | ⟨rfl, rfl, rfl⟩
    · simpa using h.followed id c s' hm
    · exact ⟨_, by simpa [h.answersOf_nextId] using Interaction.Reaches.refl _⟩
  running id rest hc := by
    cases hc
    exact ⟨chosen, signal, by simp, by simpa [h.answersOf_nextId] using Interaction.Reaches.refl _⟩

theorem Inv.answer (h : Inv adapter s) {id : ℕ} {call : SysCall}
    {next : call.Answer → Interaction SysCall SysCall.Answer (Result Unit)} {answer : call.Answer}
    {reached : List HistoryKey} (hc : s.call = some (id, .ask call next))
    (he : Possible adapter.root s.log (.answered id call answer reached)) : Inv adapter { s with
      log := s.log ++ [.answered id call answer reached]
      call := some (id, next answer) } := by
  obtain ⟨chosen, signal, hm, hr⟩ := h.running id _ hc
  have hsnoc := hr.snoc answer
  constructor
  · exact h.possible.concat he
  · intro i c s' hm'
    exact h.old i c s' (by simpa using hm')
  · intro i c₁ s₁ c₂ s₂ h₁ h₂
    exact h.unique i c₁ s₁ c₂ s₂ (by simpa using h₁) (by simpa using h₂)
  · intro i hne
    by_cases hi : i = id
    · exact ⟨chosen, signal, by simp [hi, hm]⟩
    · obtain ⟨c, s', hm'⟩ := h.asked i (by simpa [answersOf_answered, Ne.symm hi] using hne)
      exact ⟨c, s', by simp [hm']⟩
  · intro i c s' hm'
    have hold : Event.confirmed i c s' ∈ s.log := by simpa using hm'
    by_cases hi : i = id
    · subst hi
      obtain ⟨rfl, rfl⟩ := h.unique _ _ _ _ _ hm hold
      exact ⟨_, by simpa [answersOf_answered] using hsnoc⟩
    · simpa [answersOf_answered, Ne.symm hi] using h.followed i c s' hold
  · intro i rest hi
    cases hi
    exact ⟨chosen, signal, by simp [hm], by simpa [answersOf_answered] using hsnoc⟩

theorem Inv.step (h : Inv adapter s) {s' : State} (step : Step adapter s s') : Inv adapter s' := by
  cases step with
  | start process he => exact h.kernel he (by simp) (by simp)
  | stop process he => exact h.kernel he (by simp) (by simp)
  | refresh t idle => exact h.idle rfl rfl idle
  | select pid idle => exact h.idle rfl rfl idle
  | request pid process signal idle selected shown => exact h.idle rfl rfl idle
  | cancel idle => exact h.idle rfl rfl idle
  | confirm chosen signal idle selected pending => exact h.confirm chosen signal
  | answer id call next answer reached running he => exact h.answer running he
  | finish id result running => exact h.idle rfl rfl rfl

theorem inv_of_reachable (run : Reachable adapter s) : Inv adapter s := by
  induction run with
  | refl => exact inv_initial
  | tail _ step ih => exact ih.step step

end Preservation

end ProcessExplorer.Control
