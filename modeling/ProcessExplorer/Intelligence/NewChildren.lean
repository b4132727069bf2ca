import ProcessExplorer.Intelligence.ListingOrder
import ProcessExplorer.Intelligence.OwnEvents

/-! Under which generation a NewChild event is filed. The parent is looked up in the table that is being built,
and where it is not there yet, in the table of the previous call. -/
namespace ProcessExplorer.Intelligence
open Library Model Telemetry

/-- A NewChild event about a parent that the call observes is filed under the generation it observes. -/
def NamesObservedParents (s : ProcessIntelligence) (t : Tick) : Prop :=
  ∀ e ∈ s.appended t, isNewChild e.kind → ∀ parent, t.reading e.pid = some parent →
    e.startTime = parent.startTime

def Replaced (s : ProcessIntelligence) (pid : Pid) (read : ProcessSnapshot) : Prop :=
  ∃ snap, s.current.lookup pid = some snap ∧ snap.startTime ≠ read.startTime

/-- A process that starts now is listed after its parent if the parent's pid has changed hands. -/
def ReplacedParentsFirst (s : ProcessIntelligence) (t : Tick) (pids : List Pid) : Prop :=
  ∀ child ∈ pids, ∀ read, StartsNow s t child read → ∀ parent, t.reading read.ppid = some parent →
    Replaced s read.ppid parent → read.ppid ∈ listedBefore pids child

section Call
variable {s : ProcessIntelligence} {t : Tick} {pids : List Pid} {e : TimelineEvent}

theorem newChild_mem_appended_iff (hl : t.adapter.listPids = .ok pids) (hn : pids.Nodup) :
    (e ∈ s.appended t ∧ isNewChild e.kind) ↔ ∃ child ∈ pids, e ∈ childEventsOf s.drainStale t
      (s.drainStale.scan t (listedBefore pids child)).newCurrent child := by
  have hof {child : Pid} (hm : child ∈ pids) : e ∈ childEventsOf s.drainStale t
        (s.drainStale.scan t (listedBefore pids child)).newCurrent child ↔
      e ∈ (s.drainStale.scan t pids).pendingEvents ∧ e.kind = .newChild child := by
    rw [← (filter_isChildOf_scan hn hm).mem_iff, List.mem_filter, isChildOf, decide_eq_true_iff]
  simp only [ProcessIntelligence.appended, hl, ProcessIntelligence.passEvents, List.mem_append]
  constructor
  · rintro ⟨he | he, hkind⟩
    · obtain ⟨child, hchild⟩ : ∃ child, e.kind = .newChild child := by
        cases hk : e.kind <;> simp [hk, isNewChild] at hkind ⊢
      by_cases hm : child ∈ pids
      · exact ⟨child, hm, (hof hm).mpr ⟨he, hchild⟩⟩
      · have hnone := filter_isChildOf_scan_of_notMem (s := s.drainStale) (t := t) hm
        exact absurd (decide_eq_true hchild) (List.filter_eq_nil_iff.mp hnone e he)
    · obtain ⟨key, -, rfl⟩ := List.mem_map.mp he
      cases hkind
  · rintro ⟨child, hm, he⟩
    obtain ⟨hpending, hchild⟩ := (hof hm).mp he
    exact ⟨.inl hpending, by rw [hchild]; rfl⟩

theorem mem_childEventsOf {new : HashMap Pid ProcessSnapshot} {child : Pid} :
    e ∈ childEventsOf s t new child ↔ ∃ read, StartsNow s t child read ∧
      ∃ start, parentStartTime s.current new read.ppid = some start ∧ e = newChildEvent t.now child read start := by
  rw [childEventsOf]
  cases hr : t.adapter.process child with
  | error source => simp [StartsNow, hr]
  | ok read =>
    simp only [StartsNow, hr, Except.ok.injEq, childEvents]
    cases hp : previouslyLive s.current child read with
    | true => simp [hp]
    | false => simp [hp, eq_comm]

theorem finds_observed_iff {before : Prop} [Decidable before] {observed : UInt64} {old : Option UInt64} :
    (∀ start, (if before then some observed else none).or old = some start → start = observed) ↔
      ((∃ start, old = some start ∧ start ≠ observed) → before) := by
  by_cases h : before
  · simp [h, eq_comm]
  · simp [h]

/-- The NewChild events that a call adds to the timeline are filed under the generations of the parents that it
observes exactly when no process that starts now comes before a parent whose pid has changed hands. -/
theorem new_child_names_observed_parent_iff (hl : t.adapter.listPids = .ok pids) (hn : pids.Nodup) :
    (s.refreshAt t).1.timeline = (s.timeline ++ s.appended t).rtake s.timelineCapacity ∧
      (NamesObservedParents s t ↔ ReplacedParentsFirst s t pids) := by
  refine ⟨timeline_of_listed s hl, ?_⟩
  have hchild (child : Pid) (read : ProcessSnapshot) (parent : ProcessSnapshot)
      (hparent : t.reading read.ppid = some parent) :
      (∀ start, parentStartTime s.current
          (s.drainStale.scan t (listedBefore pids child)).newCurrent read.ppid = some start →
        start = parent.startTime) ↔
      (Replaced s read.ppid parent → read.ppid ∈ listedBefore pids child) := by
    obtain ⟨_, -, -, hprocess⟩ := reading_eq_some_iff.mp hparent
    have hscan := parentStartTime_scan s.drainStale t hn child read.ppid
    rw [show s.drainStale.current = s.current from rfl, hprocess] at hscan
    rw [hscan]
    refine finds_observed_iff.trans ?_
    simp [Replaced]
  constructor
  · intro h child hm read hstarts parent hparent
    apply (hchild child read parent hparent).mp
    intro start hstart
    have he : newChildEvent t.now child read start ∈ childEventsOf s.drainStale t
        (s.drainStale.scan t (listedBefore pids child)).newCurrent child :=
      mem_childEventsOf.mpr ⟨read, hstarts, start, hstart, rfl⟩
    obtain ⟨happended, hkind⟩ := (newChild_mem_appended_iff hl hn).mpr ⟨child, hm, he⟩
    exact h _ happended hkind parent hparent
  · intro h e he hkind parent hparent
    obtain ⟨child, hm, he⟩ := (newChild_mem_appended_iff hl hn).mp ⟨he, hkind⟩
    obtain ⟨read, hstarts, start, hstart, rfl⟩ := mem_childEventsOf.mp he
    exact (hchild child read parent hparent).mpr (h child hm read hstarts parent hparent) start hstart

end Call

theorem new_child_names_observed_parent_listed_first :
    NamesObservedParents (afterRun [mockTick 1000 [snap 1 0 100 0 0]])
      (mockTick 1005 [snap 2 1 400 0 0, snap 1 0 300 0 0]) := by
  have hl : (mockTick 1005 [snap 2 1 400 0 0, snap 1 0 300 0 0]).adapter.listPids = .ok [1, 2] := rfl
  apply (new_child_names_observed_parent_iff hl (by decide)).2.mpr
  intro child hm read hstarts parent hparent _
  have hcases : child = 1 ∨ child = 2 := by simpa using hm
  rcases hcases with rfl | rfl <;> obtain rfl := Except.ok.inj hstarts.1
  · cases hparent
  · decide

/-- Listed after its child, the new holder of pid 1 is taken for the one that held it before. -/
theorem new_child_filed_under_earlier_parent :
    let s := afterRun [mockTick 1000 [snap 1 0 100 0 0]]
    let t := mockTick 1005 [snap 1 0 300 0 0, snap 2 1 400 0 0]
    newChildEvent 1005 2 (snap 2 1 400 0 0) 100 ∈ s.appended t ∧
      (t.reading 1).map (·.startTime) = some 300 ∧ ¬ NamesObservedParents s t := by
  intro s t
  have he : newChildEvent 1005 2 (snap 2 1 400 0 0) 100 ∈ s.appended t := by decide
  refine ⟨he, rfl, ?_⟩
  intro h
  have hstart := h _ he rfl (snap 1 0 300 0 0) rfl
  exact absurd hstart (by decide)

end ProcessExplorer.Intelligence
