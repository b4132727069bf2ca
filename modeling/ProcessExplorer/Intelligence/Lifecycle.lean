import Mathlib.Data.List.Chain
import ProcessExplorer.Intelligence.OwnEvents

/-! Started and Exited events of one generation alternate along every run, and
the last of them says whether the generation is in the current table. -/
namespace ProcessExplorer.Intelligence
open Library Model Telemetry

inductive Lifecycle where
  | started | exited
  deriving DecidableEq, Repr

def lifecycleKind : TimelineEventKind → Option Lifecycle
  | .started => some .started
  | .exited _ => some .exited
  | _ => none

/-- The Started and Exited events of a generation, oldest first. -/
def lifecycle (key : HistoryKey) (events : List TimelineEvent) : List Lifecycle :=
  (events.filter (·.key = key)).filterMap fun e => lifecycleKind e.kind

/-- The events that go with a change of a generation's presence in the table. -/
def transition : Bool → Bool → List Lifecycle
  | false, true => [.started]
  | true, false => [.exited]
  | _, _ => []

theorem lifecycle_append (key : HistoryKey) (l r : List TimelineEvent) :
    lifecycle key (l ++ r) = lifecycle key l ++ lifecycle key r := by
  simp [lifecycle]

theorem lifecycle_eq_nil {key : HistoryKey} {events : List TimelineEvent}
    (h : ∀ e ∈ events, lifecycleKind e.kind = none) : lifecycle key events = [] :=
  List.filterMap_eq_nil_iff.mpr fun e he => h e (List.mem_of_mem_filter he)

theorem lifecycle_cons (key : HistoryKey) (e : TimelineEvent) (events : List TimelineEvent) :
    lifecycle key (e :: events) =
      (if e.key = key then (lifecycleKind e.kind).toList else []) ++ lifecycle key events := by
  by_cases hkey : e.key = key
  · cases hk : lifecycleKind e.kind <;> simp [lifecycle, hkey, hk]
  · simp [lifecycle, hkey]

/-- A pid's lifecycle is among the events it causes about itself. -/
theorem lifecycle_filter_isOwn (pid : Pid) (st : UInt64) (events : List TimelineEvent) :
    lifecycle (pid, st) (events.filter (isOwn pid)) = lifecycle (pid, st) events := by
  induction events with
  | nil => rfl
  | cons e events ih =>
    rw [List.filter_cons, lifecycle_cons]
    cases hown : isOwn pid e with
    | true => rw [if_pos rfl, lifecycle_cons, ih]
    | false =>
      rw [if_neg Bool.false_ne_true, ih]
      split
      · rename_i hkey
        have hpid : e.pid = pid := congrArg Prod.fst hkey
        have : lifecycleKind e.kind = none := by
          cases hkind : e.kind <;> simp [isOwn, hpid, hkind, isNewChild, lifecycleKind] at hown ⊢
        rw [this]
        rfl
      · rfl

theorem lifecycle_ownEvents (s : ProcessIntelligence) (t : Tick) (pid : Pid) (read : ProcessSnapshot)
    (hist : Option (List Sample)) (seen : Option (Finset String)) (st : UInt64) :
    lifecycle (pid, st) (ownEvents s t pid read hist seen) =
      if read.startTime = st ∧ previouslyLive s.current pid read = false then [.started] else [] := by
  rw [ownEvents, lifecycle_append, lifecycle_append]
  have hgrowth (snap : ProcessSnapshot) : lifecycle (pid, st) (growthEvents t.now pid hist snap) = [] :=
    lifecycle_eq_nil fun e he => by
      obtain ⟨_, rfl⟩ := mem_growthEvents he
      rfl
  have hconns (snap : ProcessSnapshot) (conns : Result (List NetworkConnection)) :
      lifecycle (pid, st) (connectionEvents (t.addrOrder pid) t.now pid snap conns seen) = [] :=
    lifecycle_eq_nil fun e he => by
      obtain ⟨_, rfl⟩ := mem_connectionEvents he
      rfl
  rw [hgrowth, hconns, List.append_nil, List.append_nil]
  cases hp : previouslyLive s.current pid read with
  | true => simp [lifecycle]
  | false =>
    by_cases hst : read.startTime = st <;>
      simp [lifecycle, startedEvent, TimelineEvent.key, lifecycleKind, hst]

theorem lifecycle_exitOf (now : Int64) (pid : Pid) (gone : Option Generation) (st : UInt64) :
    lifecycle (pid, st) (exitOf now pid gone) =
      if gone.map Generation.startTime = some st then [.exited] else [] := by
  cases gone with
  | none => rfl
  | some g =>
    by_cases hst : g.startTime = st <;>
      simp [exitOf, lifecycle, exitedEvent, TimelineEvent.key, lifecycleKind, hst]

def Tracker.isLiveAt (tr : Tracker) (st : UInt64) : Bool :=
  tr.live.map Generation.startTime = some st

theorem previouslyLive_eq_isLiveAt {s : ProcessIntelligence} {pid : Pid} {tr : Tracker} (h : Tracks s pid tr)
    (read : ProcessSnapshot) :
    previouslyLive s.drainStale.current pid read = tr.isLiveAt read.startTime := by
  rw [previouslyLive, h.drain.live, Option.map_map]
  exact Bool.eq_iff_iff.mpr (by simp [Tracker.isLiveAt, Tracker.step, Function.comp_def])

/-- One call appends exactly the lifecycle event of the change it makes. -/
theorem lifecycle_appended {s : ProcessIntelligence} {t : Tick} {pid : Pid} {tr : Tracker}
    (h : Tracks s pid tr) (hd : t.Distinct) (st : UInt64) :
    lifecycle (pid, st) (s.appended t) =
      transition (tr.isLiveAt st) ((tr.step (t.experience pid)).isLiveAt st) := by
  rw [← lifecycle_filter_isOwn, filter_isOwn_appended h hd]
  cases t.experience pid with
  | failed =>
    change [] = transition (tr.isLiveAt st) (tr.isLiveAt st)
    cases tr.isLiveAt st <;> rfl
  | absent =>
    simp only [Tracker.ownAppended, lifecycle_exitOf, Tracker.isLiveAt, Tracker.step]
    by_cases hb : tr.live.map Generation.startTime = some st <;> simp [transition, hb]
  | present now read conns again =>
    simp only [Tracker.ownAppended, lifecycle_append, lifecycle_ownEvents, lifecycle_exitOf,
      previouslyLive_eq_isLiveAt h, Tracker.isLiveAt, Tracker.step, Option.map_some,
      Tracker.observed_startTime]
    -- A generation that is read does not exit, and no other one starts.
    have hgone : (tr.live.filter (·.startTime ≠ read.startTime)).map Generation.startTime = some st ↔
        read.startTime ≠ st ∧ tr.live.map Generation.startTime = some st := by
      simp only [Option.map_eq_some_iff, Option.filter_eq_some_iff, decide_eq_true_iff]
      grind
    rw [if_congr hgone rfl rfl]
    by_cases hst : read.startTime = st
    · subst hst
      by_cases hb : tr.live.map Generation.startTime = some read.startTime <;> simp [transition, hb]
    · by_cases hb : tr.live.map Generation.startTime = some st <;> simp [transition, hb, hst]

/-- The alternation, kept by one more transition. -/
theorem alternates_transition {l : List Lifecycle} {before after : Bool}
    (hchain : l.IsChain (· ≠ ·)) (hhead : ∀ x ∈ l.head?, x = .started)
    (hlast : before = true ↔ l.getLast? = some .started) :
    (l ++ transition before after).IsChain (· ≠ ·) ∧
      (∀ x ∈ (l ++ transition before after).head?, x = .started) ∧
      (after = true ↔ (l ++ transition before after).getLast? = some .started) := by
  cases before <;> cases after
  · simpa [transition] using ⟨hchain, hhead, by simpa using hlast⟩
  · have hne : l.getLast? ≠ some .started := by simpa using hlast
    refine ⟨?_, ?_, by simp [transition]⟩
    · refine List.isChain_append.mpr ⟨hchain, .singleton _, ?_⟩
      rintro x hx y hy rfl
      exact hne (by simpa [transition] using (Option.mem_def.mp hx).trans hy.symm)
    · cases l with
      | nil => simp [transition]
      | cons x l => simpa using hhead
  · have hsome : l.getLast? = some .started := by simpa using hlast
    refine ⟨?_, ?_, by simp [transition]⟩
    · refine List.isChain_append.mpr ⟨hchain, .singleton _, ?_⟩
      rintro x hx y hy rfl
      rw [hsome] at hx
      simp [transition] at hx hy
      rw [← hx] at hy
      cases hy
    · cases l with
      | nil => cases hsome
      | cons x l => simpa using hhead
  · simpa [transition] using ⟨hchain, hhead, by simpa using hlast⟩

/-- Along every run, whose timeline is the newest 1000 of its events, the lifecycle events of a generation alternate
and begin with Started; the generation is in the table exactly when the last is Started. -/
theorem lifecycle_alternates {ticks : List Tick} (hd : ∀ t ∈ ticks, t.Distinct) (key : HistoryKey) :
    (afterRun ticks).timeline = (runEvents ticks).rtake 1000 ∧
      (lifecycle key (runEvents ticks)).IsChain (· ≠ ·) ∧
      (∀ x ∈ (lifecycle key (runEvents ticks)).head?, x = .started) ∧
      ((afterRun ticks).Live key ↔ (lifecycle key (runEvents ticks)).getLast? = some .started) := by
  refine ⟨timeline_run ticks, ?_⟩
  obtain ⟨pid, st⟩ := key
  have hlive : (afterRun ticks).Live (pid, st) ↔ (trackerOf ticks pid).isLiveAt st = true := by
    rw [(tracks_run ticks pid).live_iff, Tracker.isLiveAt, decide_eq_true_iff]
  rw [hlive]
  clear hlive
  induction ticks using List.reverseRecOn with
  | nil => simp [lifecycle, trackerOf, Tracker.empty, Tracker.isLiveAt]
  | append_singleton past t ih =>
    have hpast : ∀ x ∈ past, x.Distinct := fun x hx => hd x (List.mem_append_left _ hx)
    obtain ⟨hchain, hhead, hlast⟩ := ih hpast
    rw [runEvents_concat, lifecycle_append, lifecycle_appended (tracks_run past pid) (hd t (by simp)),
      trackerOf_concat]
    exact alternates_transition hchain hhead hlast

theorem lifecycle_alternates_exit :
    let ticks := [mockTick 1000 [snap 1 0 100 0 1000], mockTick 1001 []]
    (afterRun ticks).timeline = (runEvents ticks).rtake 1000 ∧
      (lifecycle (1, 100) (runEvents ticks)).IsChain (· ≠ ·) ∧
      (∀ x ∈ (lifecycle (1, 100) (runEvents ticks)).head?, x = .started) ∧
      ((afterRun ticks).Live (1, 100) ↔
        (lifecycle (1, 100) (runEvents ticks)).getLast? = some .started) :=
  lifecycle_alternates (by simp [mockTick_distinct]) (1, 100)

end ProcessExplorer.Intelligence
