import ProcessExplorer.Intelligence.Exits
import ProcessExplorer.Intelligence.HistoryLog
import ProcessExplorer.Intelligence.Lifecycle
import ProcessExplorer.Intelligence.TimelineLog
import ProcessExplorer.Library.SlotLog

/-! The growth and the exits of one pid along a run: how the events of several generations
can follow each other. -/
namespace ProcessExplorer.Intelligence
open Library Model Telemetry

def isCrashEvent (pid : Pid) (e : TimelineEvent) : Bool := e.pid = pid && (isGrowth e.kind || isExited e.kind)

/-- The growth and the exit that one reading means for a pid. -/
def Tracker.crashEvents (tr : Tracker) (now : Int64) (pid : Pid) : Reading → List TimelineEvent
  | .failed => []
  | .absent => (tr.live.map fun g => exitedEvent now (pid, g.startTime)).toList
  | .present _ read _ _ =>
    let hist := (tr.liveAt read.startTime).map Generation.log
    growthEvents now pid hist (rateSnapshot now hist read) ++
      ((tr.live.filter (·.startTime ≠ read.startTime)).map fun g => exitedEvent now (pid, g.startTime)).toList

theorem filter_ownEvents_isCrashEvent (s : ProcessIntelligence) (t : Tick) (pid : Pid) (read : ProcessSnapshot)
    (hist : Option (List Sample)) (seen : Option (Finset String)) :
    (ownEvents s t pid read hist seen).filter (isCrashEvent pid) =
      growthEvents t.now pid hist (rateSnapshot t.now hist read) := by
  have hgrowth : (growthEvents t.now pid hist (rateSnapshot t.now hist read)).filter (isCrashEvent pid) =
      growthEvents t.now pid hist (rateSnapshot t.now hist read) := by
    apply List.filter_eq_self.mpr
    intro e he
    obtain ⟨_, rfl⟩ := mem_growthEvents he
    simp [isCrashEvent, growthEvent, isGrowth]
  have hconns : (connectionEvents (t.addrOrder pid) t.now pid (rateSnapshot t.now hist read)
      (t.adapter.connections pid) seen).filter (isCrashEvent pid) = [] := by
    apply List.filter_eq_nil_iff.mpr
    intro e he
    obtain ⟨_, rfl⟩ := mem_connectionEvents he
    simp [isCrashEvent, connectionEvent, isGrowth, isExited]
  simp only [ownEvents, List.filter_append, hgrowth, hconns, List.append_nil]
  split <;> simp [isCrashEvent, startedEvent, isGrowth, isExited]

theorem filter_exitOf_isCrashEvent (now : Int64) (pid : Pid) (gone : Option Generation) :
    (exitOf now pid gone).filter (isCrashEvent pid) = exitOf now pid gone := by
  cases gone <;> simp [exitOf, isCrashEvent, exitedEvent, isExited]

theorem filter_isOwn_isCrashEvent (pid : Pid) (events : List TimelineEvent) :
    (events.filter (isOwn pid)).filter (isCrashEvent pid) = events.filter (isCrashEvent pid) := by
  rw [List.filter_filter]
  apply List.filter_congr
  intro e _
  cases hkind : e.kind <;> simp [isCrashEvent, isOwn, hkind, isGrowth, isExited, isNewChild]

theorem filter_appended_isCrashEvent {s : ProcessIntelligence} {t : Tick} {pid : Pid} {tr : Tracker}
    (h : Tracks s pid tr) (hd : t.Distinct) :
    (s.appended t).filter (isCrashEvent pid) = tr.crashEvents t.now pid (t.experience pid) := by
  rw [← filter_isOwn_isCrashEvent, filter_isOwn_appended h hd]
  cases t.experience pid with
  | failed => rfl
  | absent => exact filter_exitOf_isCrashEvent t.now pid tr.live
  | present now read conns again =>
    simp only [Tracker.ownAppended, List.filter_append, filter_ownEvents_isCrashEvent,
      filter_exitOf_isCrashEvent]
    rfl

/-- What comes after the last exit. -/
def sinceLastExit (log : List TimelineEvent) : List TimelineEvent := log.rtakeWhile (!isExited ·.kind)

/-- Growth is dated after every exit before it, and an exit is that of the generation which has grown
since the exit before. -/
def Coherent (past : List TimelineEvent) (e : TimelineEvent) : Prop :=
  (isGrowth e.kind → ∀ x ∈ past, isExited x.kind → x.observedAt < e.observedAt) ∧
    (isExited e.kind → ∀ x ∈ sinceLastExit past, isGrowth x.kind → x.startTime = e.startTime)

/-- The growth and the exits of a pid so far, against the generation that is live now. -/
structure CrashOrder (log : List TimelineEvent) (tr : Tracker) : Prop where
  coherent : Justified Coherent log
  growing : ∀ x ∈ sinceLastExit log, isGrowth x.kind → tr.live.map Generation.startTime = some x.startTime
  exits : ∀ x ∈ log, isExited x.kind → ∀ g ∈ tr.live, ∀ entry ∈ g.log, x.observedAt ≤ entry.1

theorem mem_sinceLastExit_append {log later : List TimelineEvent} {x : TimelineEvent} (hx : x ∈ later)
    (h : ∀ y ∈ later, isExited y.kind = false) : x ∈ sinceLastExit (log ++ later) := by
  induction later using List.reverseRecOn with
  | nil => cases hx
  | append_singleton later y ih =>
    rw [sinceLastExit, ← List.append_assoc, List.rtakeWhile_concat_pos _ _ _ (by simp [h y])]
    rcases List.mem_append.mp hx with hx | hx
    · exact List.mem_append_left _ (ih hx fun z hz => h z (List.mem_append_left _ hz))
    · exact List.mem_append_right _ hx

theorem sinceLastExit_concat_exited (log : List TimelineEvent) (now : Int64) (key : HistoryKey) :
    sinceLastExit (log ++ [exitedEvent now key]) = [] :=
  List.rtakeWhile_concat_neg _ _ _ (by simp [exitedEvent, isExited])

theorem sinceLastExit_concat_growth (log : List TimelineEvent) (now : Int64) (pid : Pid)
    (snap : ProcessSnapshot) (growth : ℚ) :
    sinceLastExit (log ++ [growthEvent now pid snap growth]) =
      sinceLastExit log ++ [growthEvent now pid snap growth] :=
  List.rtakeWhile_concat_pos _ _ _ (by simp [growthEvent, isExited])

/-- Growth is found against an entry of the history that is a window old. -/
theorem growthEvents_cases (now : Int64) (pid : Pid) (hist : Option (List Sample)) (snap : ProcessSnapshot) :
    growthEvents now pid hist snap = [] ∨
      ∃ entries baseline growth, hist = some entries ∧ baseline ∈ entries ∧
        defaultGrowthWindowSecs ≤ now - baseline.1 ∧
        growthEvents now pid hist snap = [growthEvent now pid snap growth] := by
  rw [growthEvents]
  split
  · rename_i entry baseline hbaseline
    split
    · obtain ⟨entries, rfl, hfind⟩ := Option.bind_eq_some_iff.mp hbaseline
      have hwindow := List.find?_some hfind
      exact .inr ⟨entries, _, _, rfl, List.mem_reverse.mp (List.mem_of_find?_eq_some hfind),
        of_decide_eq_true hwindow, rfl⟩
    · exact .inl rfl
  · exact .inl rfl

namespace CrashOrder
variable {log : List TimelineEvent} {tr : Tracker} {now : Int64}

theorem step_absent (h : CrashOrder log tr) (pid : Pid) :
    CrashOrder (log ++ tr.crashEvents now pid .absent) (tr.step .absent) := by
  cases hlive : tr.live with
  | none =>
    have hnil : tr.crashEvents now pid .absent = [] := by simp [Tracker.crashEvents, hlive]
    rw [hnil, List.append_nil]
    refine ⟨h.coherent, ?_, fun _ _ _ g hg => by cases hg⟩
    intro x hx hgrowth
    have := h.growing x hx hgrowth
    simp [hlive] at this
  | some g =>
    have hexit : tr.crashEvents now pid .absent = [exitedEvent now (pid, g.startTime)] := by
      simp [Tracker.crashEvents, hlive]
    rw [hexit]
    refine ⟨h.coherent.concat ⟨nofun, ?_⟩, ?_, fun _ _ _ g hg => by cases hg⟩
    · intro _ x hx hgrowth
      have := h.growing x hx hgrowth
      simpa [hlive, exitedEvent, eq_comm] using this
    · rw [sinceLastExit_concat_exited]
      exact List.forall_mem_nil _

theorem mem_observed_log {read : ProcessSnapshot} {conns : Result (List NetworkConnection)} {entry : Sample}
    (h : entry ∈ (tr.observed now read conns 0).log) :
    (∃ g, tr.liveAt read.startTime = some g ∧ entry ∈ g.log) ∨ entry.1 = now := by
  rcases mem_pushSample h with h | rfl
  · cases hg : tr.liveAt read.startTime with
    | none => simp [hg] at h
    | some g => exact .inl ⟨g, rfl, by simpa [hg] using h⟩
  · exact .inr rfl

theorem step_continued (h : CrashOrder log tr) (hlog : ∀ x ∈ log, x.observedAt ≤ now) {g : Generation}
    (htimes : ∀ entry ∈ g.log, entry.1 ≤ now) (pid : Pid) {read : ProcessSnapshot}
    (conns : Result (List NetworkConnection)) (hlive : tr.live = some g) (hst : g.startTime = read.startTime) :
    CrashOrder (log ++ tr.crashEvents now pid (.present now read conns 0))
      (tr.step (.present now read conns 0)) := by
  have hliveAt : tr.liveAt read.startTime = some g := by simp [Tracker.liveAt, hlive, hst, Option.filter]
  have hevents : tr.crashEvents now pid (.present now read conns 0) =
      growthEvents now pid (some g.log) (rateSnapshot now (some g.log) read) := by
    simp [Tracker.crashEvents, hliveAt, hlive, hst, Option.filter]
  have hold : ∀ x ∈ log, isExited x.kind → ∀ g' ∈ (tr.step (.present now read conns 0)).live,
      ∀ entry ∈ g'.log, x.observedAt ≤ entry.1 := by
    rintro x hx hexit _ ⟨⟩ entry he
    rcases mem_observed_log he with ⟨g', hg', he⟩ | he
    · exact h.exits x hx hexit g' (Option.filter_eq_some_iff.mp hg').1 entry he
    · exact he ▸ hlog x hx
  have hgrowing : ∀ x ∈ sinceLastExit log, isGrowth x.kind →
      (tr.step (.present now read conns 0)).live.map Generation.startTime = some x.startTime := by
    intro x hx hgrowth
    have := h.growing x hx hgrowth
    simpa [hlive, hst, Tracker.step] using this
  rw [hevents]
  rcases growthEvents_cases now pid (some g.log) (rateSnapshot now (some g.log) read) with
    hnil | ⟨entries, baseline, growth, hentries, hm, hwindow, hone⟩
  · rw [hnil, List.append_nil]
    exact ⟨h.coherent, hgrowing, hold⟩
  · obtain rfl := Option.some.inj hentries
    rw [hone]
    refine ⟨h.coherent.concat ⟨?_, fun hexit => by cases hexit⟩, ?_, ?_⟩
    · -- Every exit is older than the baseline, and that is older than now.
      intro _ x hx hexit
      have hle := h.exits x hx hexit g hlive baseline hm
      have hage := ((window_le_iff (htimes baseline hm)).mp hwindow).1
      rw [Int64.le_iff_toInt_le] at hle
      change x.observedAt < now
      rw [Int64.lt_iff_toInt_lt]
      omega
    · rw [sinceLastExit_concat_growth]
      intro x hx hgrowth
      rcases List.mem_append.mp hx with hx | hx
      · exact hgrowing x hx hgrowth
      · obtain rfl := List.mem_singleton.mp hx
        simp [Tracker.step, growthEvent]
    · intro x hx hexit
      rcases List.mem_append.mp hx with hx | hx
      · exact hold x hx hexit
      · obtain rfl := List.mem_singleton.mp hx
        cases hexit

/-- A reading of another generation has no history to grow from, and the live one exits. -/
theorem step_replaced (h : CrashOrder log tr) (hlog : ∀ x ∈ log, x.observedAt ≤ now) (pid : Pid)
    {read : ProcessSnapshot} (conns : Result (List NetworkConnection))
    (hliveAt : tr.liveAt read.startTime = none) :
    CrashOrder (log ++ tr.crashEvents now pid (.present now read conns 0))
      (tr.step (.present now read conns 0)) := by
  have hevents : tr.crashEvents now pid (.present now read conns 0) = tr.crashEvents now pid .absent := by
    have hsame : tr.live.filter (·.startTime ≠ read.startTime) = tr.live := by
      rw [Tracker.liveAt, Option.filter_eq_none_iff] at hliveAt
      cases hlive : tr.live with
      | none => rfl
      | some g => simpa [Option.filter] using hliveAt g hlive
    simp only [Tracker.crashEvents, hliveAt, hsame]
    rfl
  rw [hevents]
  have habsent : CrashOrder (log ++ tr.crashEvents now pid .absent) (tr.step .absent) := h.step_absent pid
  obtain ⟨hcoherent, hgrowing, -⟩ := habsent
  refine ⟨hcoherent, ?_, ?_⟩
  · intro x hx hgrowth
    cases hgrowing x hx hgrowth
  · rintro x hx hexit _ ⟨⟩ entry he
    rcases mem_observed_log he with ⟨g', hg', -⟩ | he
    · cases hliveAt.symm.trans hg'
    · rw [he]
      rcases List.mem_append.mp hx with hx | hx
      · exact hlog x hx
      · obtain ⟨g, -, rfl⟩ := Option.map_eq_some_iff.mp (Option.mem_toList.mp hx)
        exact Int64.le_refl _

end CrashOrder

def crashLog (ticks : List Tick) (pid : Pid) : List TimelineEvent := (runEvents ticks).filter (isCrashEvent pid)

theorem live_times_run {ticks : List Tick} {bound : Int64} (hb : ∀ t ∈ ticks, t.now ≤ bound) {pid : Pid}
    {g : Generation} (hg : (trackerOf ticks pid).live = some g) : ∀ entry ∈ g.log, entry.1 ≤ bound := by
  intro entry he
  apply timesAtMost_run hb (pid, g.startTime) (entry.1, entry.2.memory.rss)
  have hfind : (trackerOf ticks pid).find g.startTime = some g := by
    simp [Tracker.find, Tracker.liveAt, hg, Option.filter]
  rw [(tracks_run ticks pid).history, hfind, rssLog]
  exact List.mem_map_of_mem (f := fun entry : Sample => (entry.1, entry.2.memory.rss)) he

/-- Along a run whose clock does not go back, growth and exits are in order. -/
theorem crashOrder_run {ticks : List Tick} (hmono : (ticks.map Tick.now).Pairwise (· ≤ ·))
    (hd : ∀ t ∈ ticks, t.Distinct) (pid : Pid) : CrashOrder (crashLog ticks pid) (trackerOf ticks pid) := by
  induction ticks using List.reverseRecOn with
  | nil => exact ⟨.nil, nofun, nofun⟩
  | append_singleton past t ih =>
    rw [List.map_append, List.pairwise_append] at hmono
    have hbefore : ∀ t' ∈ past, t'.now ≤ t.now := fun t' ht' =>
      hmono.2.2 _ (List.mem_map_of_mem ht') _ (by simp)
    have h := ih hmono.1 fun t' ht' => hd t' (List.mem_append_left _ ht')
    have hlog : ∀ x ∈ crashLog past pid, x.observedAt ≤ t.now := by
      intro x hx
      obtain ⟨t', ht', hat⟩ := runEvents_times past x (List.mem_of_mem_filter hx)
      exact hat ▸ hbefore t' ht'
    rw [trackerOf_concat, crashLog, runEvents_concat, List.filter_append,
      filter_appended_isCrashEvent (tracks_run past pid) (hd t (by simp))]
    by_cases ht : t.Succeeds
    · cases hr : t.reading pid with
      | none =>
        rw [experience_of_no_reading ht hr]
        exact h.step_absent pid
      | some read =>
        rw [experience_of_reading (hd t (by simp)) hr]
        cases hliveAt : (trackerOf past pid).liveAt read.startTime with
        | none => exact h.step_replaced hlog pid _ hliveAt
        | some g =>
          obtain ⟨hlive, hst⟩ := Option.filter_eq_some_iff.mp hliveAt
          exact h.step_continued hlog (live_times_run hbefore hlive) pid _ hlive (of_decide_eq_true hst)
    · rw [experience_of_failure ht, Tracker.crashEvents, List.append_nil]
      exact ⟨h.coherent, h.growing, h.exits⟩

/-- An exit in the timeline says no more than which generation it is of, and when it was seen. -/
theorem eq_exitedEvent_of_run {ticks : List Tick} {e : TimelineEvent} (he : e ∈ runEvents ticks)
    (hkind : isExited e.kind) : e = exitedEvent e.observedAt e.key := by
  obtain ⟨n, hn⟩ := List.mem_iff_getElem?.mp he
  obtain ⟨past, t, -, -, -, -, hm⟩ := runEvents_origin hn
  have ht : t.Succeeds := by
    cases hl : t.adapter.listPids with
    | ok pids => exact ⟨pids, hl⟩
    | error source =>
      rw [ProcessIntelligence.appended, hl] at hm
      cases hm
  obtain ⟨key, -, -, rfl⟩ := (exited_mem_appended_iff ht).mp ⟨hm, hkind⟩
  rfl

end ProcessExplorer.Intelligence
