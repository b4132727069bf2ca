import Mathlib.Data.Option.Basic
import ProcessExplorer.Library.Runs
import ProcessExplorer.Intelligence.PidPart

/-! What a run of refresh_at means for one pid: at most one live generation,
at most one generation in its grace tick, each with its log. The state of
ProcessIntelligence refines one such tracker for every pid. -/
namespace ProcessExplorer.Intelligence
open Library Model Telemetry

/-- One generation as it is remembered; the log is never empty and never too long. -/
structure Generation where
  startTime : UInt64
  log : List Sample
  seen : Option (Finset String)
  nonempty : log ≠ []
  bounded : log.length ≤ defaultHistoryCapacity
  same : ∀ entry ∈ log, entry.2.startTime = startTime

/-- The snapshot stored last. -/
def Generation.newest (g : Generation) : ProcessSnapshot := (g.log.getLast g.nonempty).2

@[simp] theorem Generation.newest_startTime (g : Generation) : g.newest.startTime = g.startTime :=
  g.same _ (List.getLast_mem g.nonempty)

/-- One tick as one pid experiences it; a pid that is listed again is read again. -/
inductive Reading where
  | failed
  | absent
  | present (now : Int64) (read : ProcessSnapshot) (conns : Result (List NetworkConnection))
      (again : Nat)

theorem mem_pushSample {n : Nat} {hist : Option (List Sample)} {entry new : Sample}
    (h : entry ∈ pushSample n hist new) : entry ∈ hist.getD [] ∨ entry = new := by
  rw [pushSample, trimFront_eq_rtake] at h
  simpa using mem_of_mem_rtake h

theorem pushSample_eq {n : Nat} (hn : 0 < n) (hist : Option (List Sample)) (new : Sample) :
    pushSample n hist new = (hist.getD []).rtake (n - 1) ++ [new] := by
  rw [pushSample, trimFront_eq_rtake, rtake_concat n hn]

theorem pushSample_ne_nil {n : Nat} (hn : 0 < n) (hist : Option (List Sample)) (new : Sample) :
    pushSample n hist new ≠ [] := by
  rw [pushSample_eq hn]
  simp

theorem length_pushSample_le (n : Nat) (hist : Option (List Sample)) (new : Sample) :
    (pushSample n hist new).length ≤ n := by
  rw [pushSample, trimFront_eq_rtake, length_rtake]
  exact Nat.min_le_left _ _

namespace Generation

/-- One more observation of a generation, or the first one. -/
def extend (prior : Option Generation) (now : Int64) (read : ProcessSnapshot)
    (conns : Result (List NetworkConnection)) (hp : ∀ g ∈ prior, g.startTime = read.startTime) :
    Generation where
  startTime := read.startTime
  log := pushSample defaultHistoryCapacity (prior.map log)
    (now, rateSnapshot now (prior.map log) read)
  seen := nextSeen conns (prior.bind seen)
  nonempty := pushSample_ne_nil (by decide) _ _
  bounded := length_pushSample_le _ _ _
  same entry h := by
    rcases mem_pushSample h with h | rfl
    · cases hprior : prior with
      | none => simp [hprior] at h
      | some g =>
        have hg : g.startTime = read.startTime := hp g hprior
        rw [← hg]
        exact g.same entry (by simpa [hprior] using h)
    · simp

@[simp] theorem extend_newest (prior : Option Generation) (now : Int64) (read : ProcessSnapshot)
    (conns : Result (List NetworkConnection)) (hp : ∀ g ∈ prior, g.startTime = read.startTime) :
    (extend prior now read conns hp).newest = rateSnapshot now (prior.map log) read := by
  have hlog : (extend prior now read conns hp).log = _ := pushSample_eq (by decide) _ _
  simp [newest, hlog]

/-- The same observation made once, and then again so many times. -/
def extendAgain (prior : Option Generation) (now : Int64) (read : ProcessSnapshot)
    (conns : Result (List NetworkConnection)) (hp : ∀ g ∈ prior, g.startTime = read.startTime) :
    Nat → { g : Generation // g.startTime = read.startTime }
  | 0 => ⟨extend prior now read conns hp, rfl⟩
  | again + 1 =>
    ⟨extend (some (extendAgain prior now read conns hp again).1) now read conns
      (by simpa using (extendAgain prior now read conns hp again).2), rfl⟩

end Generation

structure Tracker where
  live : Option Generation
  grace : Option Generation
  apart : ∀ g ∈ live, ∀ h ∈ grace, g.startTime ≠ h.startTime

namespace Tracker

def empty : Tracker := ⟨none, none, by simp⟩

/-- The live generation, if it is the one with this start time. -/
def liveAt (tr : Tracker) (st : UInt64) : Option Generation := tr.live.filter (·.startTime = st)

theorem liveAt_startTime {tr : Tracker} {st : UInt64} {g : Generation} (h : g ∈ tr.liveAt st) :
    g.startTime = st := by
  simpa using (Option.filter_eq_some_iff.mp h).2

/-- The remembered generation with this start time. -/
def find (tr : Tracker) (st : UInt64) : Option Generation :=
  (tr.liveAt st).or (tr.grace.filter (·.startTime = st))

/-- The generation that is live after a reading. -/
def observed (tr : Tracker) (now : Int64) (read : ProcessSnapshot)
    (conns : Result (List NetworkConnection)) (again : Nat) : Generation :=
  (Generation.extendAgain (tr.liveAt read.startTime) now read conns
    (fun _ => liveAt_startTime) again).1

@[simp] theorem observed_startTime (tr : Tracker) (now : Int64) (read : ProcessSnapshot)
    (conns : Result (List NetworkConnection)) (again : Nat) :
    (tr.observed now read conns again).startTime = read.startTime :=
  (Generation.extendAgain _ now read conns _ again).2

theorem observed_newest_memory (tr : Tracker) (now : Int64) (read : ProcessSnapshot)
    (conns : Result (List NetworkConnection)) (again : Nat) :
    (tr.observed now read conns again).newest.memory = read.memory := by
  cases again <;> simp [observed, Generation.extendAgain]

/-- A failed call forgets the grace generation; a successful one moves the live
generation there unless it is observed again. -/
def step (tr : Tracker) : Reading → Tracker
  | .failed => ⟨tr.live, none, by simp⟩
  | .absent => ⟨none, tr.live, by simp⟩
  | .present now read conns again =>
    ⟨some (tr.observed now read conns again), tr.live.filter (·.startTime ≠ read.startTime), by
      intro g hg h hh
      obtain rfl := Option.some.inj hg
      have hne : h.startTime ≠ read.startTime := by
        simpa using (Option.filter_eq_some_iff.mp hh).2
      exact fun he => hne (he.symm.trans (tr.observed_startTime now read conns again))⟩

end Tracker

/-- The snapshot that a call obtains for a pid, if it gets one. -/
def Tick.reading (t : Tick) (pid : Pid) : Option ProcessSnapshot :=
  match t.adapter.listPids with
  | .ok pids => if pid ∈ pids then (t.adapter.process pid).toOption else none
  | .error _ => none

def Tick.Succeeds (t : Tick) : Prop := ∃ pids, t.adapter.listPids = .ok pids

/-- The adapter lists no pid twice. -/
def Tick.Distinct (t : Tick) : Prop := ∀ pids, t.adapter.listPids = .ok pids → pids.Nodup

def Tick.experience (t : Tick) (pid : Pid) : Reading :=
  match t.adapter.listPids with
  | .error _ => .failed
  | .ok pids =>
    match t.reading pid with
    | some read => .present t.now read (t.adapter.connections pid) (pids.count pid - 1)
    | none => .absent

/-- The part of a state that belongs to a pid is the one its tracker describes. -/
structure Tracks (s : ProcessIntelligence) (pid : Pid) (tr : Tracker) : Prop where
  live : s.current.lookup pid = tr.live.map Generation.newest
  history : ∀ st, s.history.lookup (pid, st) = (tr.find st).map Generation.log
  seen : ∀ st, s.connectionsSeen.lookup (pid, st) = (tr.find st).bind Generation.seen
  stale : ∀ st, (pid, st) ∈ s.staleKeys ↔ tr.grace.map Generation.startTime = some st

/-- The two capacities are set once, by new. -/
structure Configured (s : ProcessIntelligence) : Prop where
  history : s.historyCapacity = defaultHistoryCapacity
  timeline : s.timelineCapacity = defaultTimelineCapacity

theorem configured_new : Configured .new := ⟨rfl, rfl⟩

theorem Configured.refreshAt {s : ProcessIntelligence} (h : Configured s) (t : Tick) :
    Configured (s.refreshAt t).1 := by
  rw [ProcessIntelligence.refreshAt]
  split <;> exact ⟨h.history, h.timeline⟩

theorem tracks_new (pid : Pid) : Tracks .new pid .empty := by
  constructor <;> simp [ProcessIntelligence.new, Tracker.empty, Tracker.find, Tracker.liveAt]

theorem Tracker.find_of_grace_none {tr : Tracker} (h : tr.grace = none) (st : UInt64) :
    tr.find st = tr.liveAt st := by
  simp [find, h]

theorem Tracker.liveAt_eq_none_of_grace {tr : Tracker} {g : Generation} (h : tr.grace = some g) :
    tr.liveAt g.startTime = none := by
  cases hl : tr.live with
  | none => simp [liveAt, hl]
  | some l =>
    have := tr.apart l hl g h
    simp [liveAt, hl, this]

/-- Draining the stale keys is what a failed call does, and all it does. -/
theorem Tracks.drain {s : ProcessIntelligence} {pid : Pid} {tr : Tracker} (h : Tracks s pid tr) :
    Tracks s.drainStale pid (tr.step .failed) := by
  have hfind (st : UInt64) :
      (tr.step .failed).find st = if (pid, st) ∈ s.staleKeys then none else tr.find st := by
    rw [Tracker.find_of_grace_none rfl]
    cases hg : tr.grace with
    | none =>
      have : (pid, st) ∉ s.staleKeys := by simp [h.stale, hg]
      simp [this, Tracker.find, hg, Tracker.step, Tracker.liveAt]
    | some g =>
      by_cases hst : g.startTime = st
      · have : (pid, st) ∈ s.staleKeys := by simp [h.stale, hg, hst]
        rw [if_pos this, ← hst]
        exact (Tracker.liveAt_eq_none_of_grace hg :)
      · have : (pid, st) ∉ s.staleKeys := by simp [h.stale, hg, hst]
        simp [this, Tracker.find, hg, hst, Tracker.step, Tracker.liveAt, Option.filter]
  constructor
  · exact h.live
  · intro st
    rw [hfind]
    simp only [ProcessIntelligence.drainStale, HashMap.lookup_eraseAll, h.history]
    split <;> rfl
  · intro st
    rw [hfind]
    simp only [ProcessIntelligence.drainStale, HashMap.lookup_eraseAll, h.seen]
    split <;> rfl
  · intro st
    simp [ProcessIntelligence.drainStale, Tracker.step]

theorem mem_oldKeys {s : ProcessIntelligence} {pid : Pid} {st : UInt64} :
    (pid, st) ∈ s.oldKeys ↔ (s.current.lookup pid).map (·.startTime) = some st := by
  simp only [ProcessIntelligence.oldKeys, List.mem_map, Prod.mk.injEq, Option.map_eq_some_iff,
    HashMap.lookup_eq_some_iff]
  constructor
  · rintro ⟨⟨p, snap⟩, hm, rfl, rfl⟩
    exact ⟨snap, hm, rfl⟩
  · rintro ⟨snap, hm, rfl⟩
    exact ⟨⟨pid, snap⟩, hm, rfl, rfl⟩

theorem mem_exitedKeys {s : ProcessIntelligence} {p : Pass} {pid : Pid} {st : UInt64} :
    (pid, st) ∈ s.exitedKeys p ↔ (pid, st) ∈ s.oldKeys ∧ (p.part pid).observed st = false := by
  simp [ProcessIntelligence.exitedKeys, Pass.part]

theorem Tracks.mem_oldKeys {s : ProcessIntelligence} {pid : Pid} {tr : Tracker}
    (h : Tracks s pid tr) (st : UInt64) :
    (pid, st) ∈ s.oldKeys ↔ tr.live.map Generation.startTime = some st := by
  rw [Intelligence.mem_oldKeys, h.live]
  cases tr.live <;> simp

theorem Tracker.find_step_present (tr : Tracker) (now : Int64) (read : ProcessSnapshot)
    (conns : Result (List NetworkConnection)) (again : Nat) (st : UInt64) :
    (tr.step (.present now read conns again)).find st =
      if st = read.startTime then some (tr.observed now read conns again) else tr.liveAt st := by
  split
  · subst st
    simp [step, find, liveAt]
  · rename_i hne
    cases hl : tr.live with
    | none => simp [step, find, liveAt, hl, Ne.symm hne, Option.filter]
    | some l =>
      by_cases hst : l.startTime = st
      · simp [step, find, liveAt, hl, Ne.symm hne, hst, hne, Option.filter]
      · by_cases hr : l.startTime = read.startTime <;>
          simp [step, find, liveAt, hl, Ne.symm hne, hst, hr, Option.filter]

/-- The visits of a pid extend the generation that its part describes. -/
theorem iterate_observe {s : ProcessIntelligence} {t : Tick} {pid : Pid} {read : ProcessSnapshot}
    (hc : s.historyCapacity = defaultHistoryCapacity) (hr : t.adapter.process pid = .ok read)
    (v : PidPart) {prior : Option Generation} (hp : ∀ g ∈ prior, g.startTime = read.startTime)
    (hh : v.history read.startTime = prior.map Generation.log)
    (hs : v.seen read.startTime = prior.bind Generation.seen) (n : Nat) :
    let w := (PidPart.observe s t pid)^[n + 1] v
    let g := (Generation.extendAgain prior t.now read (t.adapter.connections pid) hp n).1
    w.live = some g.newest ∧
      w.history = Function.update v.history read.startTime (some g.log) ∧
      w.seen = Function.update v.seen read.startTime g.seen ∧
      w.observed = Function.update v.observed read.startTime true := by
  induction n with
  | zero =>
    simp only [Function.iterate_one, PidPart.observe, hr, PidPart.absorb, hh, hs, hc,
      Generation.extendAgain, Generation.extend_newest, zero_add]
    exact ⟨trivial, rfl, rfl, trivial⟩
  | succ n ih =>
    obtain ⟨-, hhist, hseen, hobs⟩ := ih
    simp only [Function.iterate_succ_apply' _ (n + 1), PidPart.observe, hr, PidPart.absorb, hhist,
      hseen, hobs, hc, Function.update_self, Function.update_idem, Generation.extendAgain,
      Generation.extend_newest, Option.map_some]
    exact ⟨trivial, rfl, rfl, trivial⟩

/-- A pass that reads the pid, from a state in which the stale keys are gone. -/
theorem Tracks.commit_read {s : ProcessIntelligence} {t : Tick} {pids : List Pid} {pid : Pid}
    {read : ProcessSnapshot} {tr : Tracker} (h : Tracks s pid tr) (hc : Configured s)
    (hg : tr.grace = none) (hm : pid ∈ pids) (hr : t.adapter.process pid = .ok read) :
    Tracks (s.commit t (s.scan t pids)) pid
      (tr.step (.present t.now read (t.adapter.connections pid) (pids.count pid - 1))) := by
  have hcount : pids.count pid - 1 + 1 = pids.count pid :=
    Nat.sub_add_cancel (List.count_pos_iff.mpr hm)
  have hpart : (s.scan t pids).part pid =
      (PidPart.observe s t pid)^[pids.count pid - 1 + 1] (s.passStart.part pid) := by
    rw [hcount]
    exact (passBody s t).part_foldl pid pids _
  have hfind (st : UInt64) : tr.find st = tr.liveAt st := tr.find_of_grace_none hg st
  have hprior := h.history read.startTime
  have hpriorSeen := h.seen read.startTime
  rw [hfind] at hprior hpriorSeen
  obtain ⟨hlive, hhist, hseen, hobs⟩ := iterate_observe hc.history hr (s.passStart.part pid)
    (fun _ => Tracker.liveAt_startTime) hprior hpriorSeen (pids.count pid - 1)
  rw [← hpart, part_passStart] at hhist hseen hobs
  rw [← hpart] at hlive
  have hnew := tr.find_step_present t.now read (t.adapter.connections pid) (pids.count pid - 1)
  constructor
  · exact hlive
  · intro st
    have := congrFun hhist st
    simp only [Pass.part, Function.update_apply, h.history, hfind] at this
    simp only [ProcessIntelligence.commit, this, hnew]
    split <;> rfl
  · intro st
    have := congrFun hseen st
    simp only [Pass.part, Function.update_apply, h.seen, hfind] at this
    simp only [ProcessIntelligence.commit, this, hnew]
    split <;> rfl
  · intro st
    have := congrFun hobs st
    simp only [Function.update_apply] at this
    simp only [ProcessIntelligence.commit, Visit.mem_run, mem_exitedKeys, h.mem_oldKeys, this,
      Tracker.step]
    cases hl : tr.live with
    | none => simp
    | some l =>
      by_cases hst : l.startTime = read.startTime
      · simp [hst]
        grind
      · simp [hst]
        grind

/-- A pass that does not read the pid. -/
theorem Tracks.commit_skip {s : ProcessIntelligence} {t : Tick} {pids : List Pid} {pid : Pid}
    {tr : Tracker} (h : Tracks s pid tr) (hg : tr.grace = none)
    (hs : pid ∈ pids → ∃ e, t.adapter.process pid = .error e) :
    Tracks (s.commit t (s.scan t pids)) pid (tr.step .absent) := by
  have hpart := scan_part_of_skip (s := s) hs
  rw [part_passStart] at hpart
  have hfind (st : UInt64) : (tr.step .absent).find st = tr.find st := by
    rw [tr.find_of_grace_none hg]
    simp [Tracker.step, Tracker.find, Tracker.liveAt]
  constructor
  · exact congrArg PidPart.live hpart
  · intro st
    rw [hfind, ← h.history]
    exact congrFun (congrArg PidPart.history hpart) st
  · intro st
    rw [hfind, ← h.seen]
    exact congrFun (congrArg PidPart.seen hpart) st
  · intro st
    simp only [ProcessIntelligence.commit, Visit.mem_run, mem_exitedKeys, h.mem_oldKeys, hpart,
      Tracker.step, and_true]

/-- One call of refresh_at is one step of every pid's tracker. -/
theorem Tracks.refreshAt {s : ProcessIntelligence} {t : Tick} {pid : Pid} {tr : Tracker}
    (h : Tracks s pid tr) (hc : Configured s) :
    Tracks (s.refreshAt t).1 pid (tr.step (t.experience pid)) := by
  have h' := h.drain
  have hc' : Configured s.drainStale := ⟨hc.history, hc.timeline⟩
  rw [ProcessIntelligence.refreshAt, Tick.experience, Tick.reading]
  cases hl : t.adapter.listPids with
  | error e => exact h'
  | ok pids =>
    by_cases hm : pid ∈ pids
    · cases hr : t.adapter.process pid with
      | error e =>
        simp only [hm, if_true, Except.toOption]
        exact h'.commit_skip rfl fun _ => ⟨e, hr⟩
      | ok read =>
        simp only [hm, if_true, Except.toOption]
        exact h'.commit_read hc' rfl hm hr
    · simp only [hm, if_false]
      exact h'.commit_skip rfl fun hm' => absurd hm' hm

end ProcessExplorer.Intelligence
