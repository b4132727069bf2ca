import Mathlib.Data.List.Induction

/-! Slots that tenants take and leave, read off a log in which no tenant takes a slot twice.
Two looks at one slot that see different tenants enclose the exchange. -/
namespace ProcessExplorer.Library

/-- Every event of a log was allowed by the events before it. -/
def Justified {E : Type} (Allowed : List E → E → Prop) (log : List E) : Prop :=
  ∀ past e rest, log = past ++ e :: rest → Allowed past e

namespace Justified
variable {E : Type} {Allowed Weaker : List E → E → Prop} {log : List E} {e : E}

@[simp] theorem nil : Justified Allowed [] := by
  intro past e rest h
  simp at h

theorem of_append {rest : List E} (h : Justified Allowed (log ++ rest)) : Justified Allowed log := by
  rintro past e rest' rfl
  exact h past e (rest' ++ rest) (by simp)

theorem last (h : Justified Allowed (log ++ [e])) : Allowed log e := h log e [] rfl

theorem concat (h : Justified Allowed log) (he : Allowed log e) : Justified Allowed (log ++ [e]) := by
  intro past x rest hsplit
  induction rest using List.reverseRecOn with
  | nil =>
    obtain ⟨rfl, hx⟩ := List.append_inj' hsplit rfl
    cases hx
    exact he
  | append_singleton rest last _ =>
    rw [← List.cons_append, ← List.append_assoc] at hsplit
    exact h past x rest (List.append_inj_left' hsplit rfl)

theorem mono (h : Justified Allowed log) (hw : ∀ past e, Allowed past e → Weaker past e) :
    Justified Weaker log := fun past e rest hsplit => hw past e (h past e rest hsplit)

end Justified

/-- What an event does to the slots K with tenants V. -/
inductive SlotChange (K V : Type) where
  | taken (slot : K) (tenant : V)
  | left (slot : K) (tenant : V)

namespace SlotLog
variable {E K V : Type} [DecidableEq K] (view : E → Option (SlotChange K V))

def update (slot : K) (tenant : Option V) (e : E) : Option V :=
  match view e with
  | some (.taken k v) => if k = slot then some v else tenant
  | some (.left k _) => if k = slot then none else tenant
  | none => tenant

/-- The tenant of a slot after a log. -/
def holder (log : List E) (slot : K) : Option V := log.foldl (update view slot) none

theorem holder_concat (log : List E) (e : E) (slot : K) :
    holder view (log ++ [e]) slot = update view slot (holder view log slot) e := by
  simp [holder]

theorem holder_concat_of_none {e : E} (hv : view e = none) (log : List E) (slot : K) :
    holder view (log ++ [e]) slot = holder view log slot := by
  simp [holder_concat, update, hv]

/-- What one more event can do to a slot. -/
theorem holder_concat_cases (log : List E) (e : E) (slot : K) :
    (∃ v, view e = some (.taken slot v) ∧ holder view (log ++ [e]) slot = some v) ∨
    (∃ v, view e = some (.left slot v) ∧ holder view (log ++ [e]) slot = none) ∨
    holder view (log ++ [e]) slot = holder view log slot := by
  rw [holder_concat, update]
  split
  · next k v hv =>
    by_cases hk : k = slot
    · exact .inl ⟨v, hk ▸ hv, by simp [hk]⟩
    · exact .inr (.inr (if_neg hk))
  · next k v hv =>
    by_cases hk : k = slot
    · exact .inr (.inl ⟨v, hk ▸ hv, by simp [hk]⟩)
    · exact .inr (.inr (if_neg hk))
  · exact .inr (.inr rfl)

/-- A free slot is taken by a tenant that never had it, and left by the tenant that has it. -/
def Allows (log : List E) (e : E) : Prop :=
  match view e with
  | some (.taken slot tenant) =>
    holder view log slot = none ∧ ∀ past ∈ log, view past ≠ some (.taken slot tenant)
  | some (.left slot tenant) => holder view log slot = some tenant
  | none => True

abbrev Lawful (log : List E) : Prop := Justified (Allows view) log

section Changes
variable {view} {log : List E} {e : E} {slot : K} {tenant other : V}

theorem allows_taken (hv : view e = some (.taken slot tenant)) : Allows view log e ↔
    holder view log slot = none ∧ ∀ past ∈ log, view past ≠ some (.taken slot tenant) := by
  simp [Allows, hv]

theorem allows_left (hv : view e = some (.left slot tenant)) :
    Allows view log e ↔ holder view log slot = some tenant := by
  simp [Allows, hv]

/-- A tenant took its slot at some time. -/
theorem taken_of_holder (h : holder view log slot = some tenant) :
    ∃ past ∈ log, view past = some (.taken slot tenant) := by
  induction log using List.reverseRecOn with
  | nil => cases h
  | append_singleton log e ih =>
    rcases holder_concat_cases view log e slot with ⟨v, hv, hh⟩ | ⟨v, -, hh⟩ | hh
    · rw [h] at hh
      exact ⟨e, by simp, by rw [hv, Option.some.inj hh]⟩
    · rw [h] at hh
      cases hh
    · obtain ⟨past, hm, hp⟩ := ih (hh ▸ h)
      exact ⟨past, by simp [hm], hp⟩

/-- A tenant that left never has the slot again. -/
theorem holder_ne_of_left (h : Lawful view log)
    (hleft : ∃ past ∈ log, view past = some (.left slot tenant)) :
    holder view log slot ≠ some tenant := by
  induction log using List.reverseRecOn with
  | nil => simp at hleft
  | append_singleton log e ih =>
    -- Whether it left now or before, it had taken the slot before this event.
    have htaken : view e = some (.taken slot tenant) → False := by
      intro he
      have hfresh := ((allows_taken he).mp h.last).2
      obtain ⟨past, hm, hp⟩ := hleft
      rcases List.mem_append.mp hm with hm | hm
      · obtain ⟨before, after, rfl⟩ := List.append_of_mem hm
        have hhad := (allows_left hp).mp (h before past (after ++ [e]) (by simp))
        obtain ⟨first, hfirst, hf⟩ := taken_of_holder hhad
        exact hfresh first (by simp [hfirst]) hf
      · rw [List.mem_singleton.mp hm, he] at hp
        cases hp
    rcases holder_concat_cases view log e slot with ⟨v, hv, hh⟩ | ⟨v, -, hh⟩ | hh
    · intro hc
      rw [hc] at hh
      exact htaken (by rw [hv, Option.some.inj hh])
    · simp [hh]
    · obtain ⟨past, hm, hp⟩ := hleft
      rcases List.mem_append.mp hm with hm | hm
      · rw [hh]
        exact ih h.of_append ⟨past, hm, hp⟩
      · rw [List.mem_singleton.mp hm] at hp
        simp [holder_concat, update, hp]

/-- A tenant that no longer has the slot left it in between. -/
theorem left_between {between : List E} (h : Lawful view (log ++ between))
    (hbefore : holder view log slot = some tenant)
    (hafter : holder view (log ++ between) slot ≠ some tenant) :
    ∃ e ∈ between, view e = some (.left slot tenant) := by
  induction between using List.reverseRecOn with
  | nil => simp [hbefore] at hafter
  | append_singleton between e ih =>
    rw [← List.append_assoc] at h hafter
    by_cases hstill : holder view (log ++ between) slot = some tenant
    · rcases holder_concat_cases view (log ++ between) e slot with ⟨v, hv, -⟩ | ⟨v, hv, -⟩ | hh
      · have hfree := ((allows_taken hv).mp h.last).1
        simp [hstill] at hfree
      · have hhad := (allows_left hv).mp h.last
        rw [hstill] at hhad
        exact ⟨e, by simp, by rw [hv, Option.some.inj hhad]⟩
      · exact absurd (hh.trans hstill) hafter
    · obtain ⟨past, hm, hp⟩ := ih h.of_append hstill
      exact ⟨past, by simp [hm], hp⟩

/-- A tenant that has the slot twice has had it all the while. -/
theorem holder_throughout {between later : List E} (h : Lawful view (log ++ between ++ later))
    (hbefore : holder view log slot = some tenant) (hafter : holder view (log ++ between ++ later) slot = some tenant) :
    holder view (log ++ between) slot = some tenant := by
  by_contra hgone
  obtain ⟨e, hm, he⟩ := left_between h.of_append hbefore hgone
  exact holder_ne_of_left h ⟨e, by simp [hm], he⟩ hafter

/-- Between two tenants the first leaves the slot and then the second takes it. -/
theorem exchanged_between {between : List E} (h : Lawful view (log ++ between))
    (hbefore : holder view log slot = some tenant)
    (hafter : holder view (log ++ between) slot = some other) (hne : other ≠ tenant) :
    ∃ e₁ e₂, view e₁ = some (.left slot tenant) ∧ view e₂ = some (.taken slot other) ∧
      [e₁, e₂].Sublist between := by
  induction between using List.reverseRecOn with
  | nil => simp [hbefore, hne.symm] at hafter
  | append_singleton between e ih =>
    rw [← List.append_assoc] at h hafter
    rcases holder_concat_cases view (log ++ between) e slot with ⟨v, hv, hh⟩ | ⟨v, -, hh⟩ | hh
    · have hfree := ((allows_taken hv).mp h.last).1
      obtain ⟨e₁, hm, he⟩ := left_between h.of_append hbefore (by simp [hfree])
      rw [hafter] at hh
      refine ⟨e₁, e, he, by rw [hv, Option.some.inj hh], ?_⟩
      exact (List.singleton_sublist.mpr hm).append (List.Sublist.refl [e])
    · rw [hafter] at hh
      cases hh
    · obtain ⟨e₁, e₂, h₁, h₂, hsub⟩ := ih h.of_append (hh ▸ hafter)
      exact ⟨e₁, e₂, h₁, h₂, hsub.trans (List.sublist_append_left between [e])⟩

end Changes

end SlotLog

end ProcessExplorer.Library
