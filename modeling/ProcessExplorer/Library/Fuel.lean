import Mathlib.Data.List.Forall2

/-! Recursions that are given fuel, and the result on which every large enough
amount of fuel agrees. -/
namespace ProcessExplorer.Library
variable {α β γ : Type}

/-- Every amount of fuel from some bound on gives this result. -/
def Settles (run : ℕ → Option β) (result : β) : Prop :=
  ∃ bound, ∀ fuel, bound ≤ fuel → run fuel = some result

/-- An attempt on every element succeeds when each of them does. -/
theorem mapM_eq_some_iff {f : α → Option β} {l : List α} {bs : List β} :
    l.mapM f = some bs ↔ List.Forall₂ (fun x b => f x = some b) l bs := by
  induction l generalizing bs with
  | nil => simp [eq_comm]
  | cons x l ih =>
    simp only [List.mapM_cons, Option.bind_eq_bind, Option.bind_eq_some_iff, ih, List.forall₂_cons_left_iff,
      Option.pure_def, Option.some.injEq]
    constructor
    · rintro ⟨b, hb, bs, hbs, rfl⟩
      exact ⟨b, bs, hb, hbs, rfl⟩
    · rintro ⟨b, bs, hb, hbs, rfl⟩
      exact ⟨b, hb, bs, hbs, rfl⟩

/-- Results that go over into others do so one by one. -/
theorem mapM_map_eq_some {f : α → Option β} {g : α → Option γ} (k : β → γ) {l : List α} {bs : List β}
    (h : ∀ x ∈ l, ∀ b, f x = some b → g x = some (k b)) (hl : l.mapM f = some bs) :
    l.mapM g = some (bs.map k) := by
  rw [mapM_eq_some_iff] at hl ⊢
  induction hl with
  | nil => exact .nil
  | cons hx _ ih =>
    exact .cons (h _ List.mem_cons_self _ hx) (ih fun y hy => h y (List.mem_cons_of_mem _ hy))

theorem mapM_congr {f g : α → Option β} {l : List α} (h : ∀ x ∈ l, f x = g x) : l.mapM f = l.mapM g := by
  induction l with
  | nil => rfl
  | cons x l ih =>
    rw [List.mapM_cons, List.mapM_cons, h x List.mem_cons_self, ih fun y hy => h y (List.mem_cons_of_mem x hy)]

theorem mapM_eq_none {f : α → Option β} {l : List α} {x : α} (hx : x ∈ l) (h : f x = none) : l.mapM f = none := by
  induction l with
  | nil => cases hx
  | cons y l ih =>
    rw [List.mapM_cons]
    rcases List.mem_cons.mp hx with rfl | hx
    · simp [h]
    · cases hy : f y <;> simp [ih hx]

namespace Settles

theorem const (result : β) : Settles (fun _ => some result) result := ⟨0, fun _ _ => rfl⟩

theorem unique {run : ℕ → Option β} {b b' : β} (h : Settles run b) (h' : Settles run b') : b = b' := by
  obtain ⟨bound, h⟩ := h
  obtain ⟨bound', h'⟩ := h'
  have hb := h (max bound bound') (Nat.le_max_left _ _)
  rw [h' _ (Nat.le_max_right _ _)] at hb
  exact (Option.some.inj hb).symm

/-- A recursion spends one unit before it does anything else. -/
theorem of_succ {run : ℕ → Option β} {b : β} (h : Settles (fun fuel => run (fuel + 1)) b) : Settles run b := by
  obtain ⟨bound, h⟩ := h
  refine ⟨bound + 1, fun fuel hf => ?_⟩
  obtain ⟨fuel, rfl⟩ := Nat.exists_eq_add_of_le' (Nat.one_le_of_lt hf)
  exact h fuel (Nat.le_of_succ_le_succ hf)

theorem bind {run : ℕ → Option β} {next : ℕ → β → Option γ} {b : β} {c : γ} (h : Settles run b)
    (hn : Settles (fun fuel => next fuel b) c) : Settles (fun fuel => (run fuel).bind (next fuel)) c := by
  obtain ⟨bound, h⟩ := h
  obtain ⟨bound', hn⟩ := hn
  refine ⟨max bound bound', fun fuel hf => ?_⟩
  change (run fuel).bind (next fuel) = some c
  rw [h fuel (Nat.le_trans (Nat.le_max_left _ _) hf), Option.bind_some]
  exact hn fuel (Nat.le_trans (Nat.le_max_right _ _) hf)

theorem map {run : ℕ → Option β} {b : β} (f : β → γ) (h : Settles run b) :
    Settles (fun fuel => (run fuel).map f) (f b) := by
  obtain ⟨bound, h⟩ := h
  refine ⟨bound, fun fuel hf => ?_⟩
  change (run fuel).map f = some (f b)
  rw [h fuel hf, Option.map_some]

/-- One bound serves all elements of a list; f reads a result off what is known of it. -/
theorem mapM {run : ℕ → α → Option β} {f : γ → β} {P : α → γ → Prop} {l : List α}
    (h : ∀ x ∈ l, ∃ c, Settles (fun fuel => run fuel x) (f c) ∧ P x c) :
    ∃ cs, Settles (fun fuel => l.mapM (run fuel)) (cs.map f) ∧ List.Forall₂ P l cs := by
  induction l with
  | nil => exact ⟨[], const [], .nil⟩
  | cons x l ih =>
    obtain ⟨c, hc, hP⟩ := h x List.mem_cons_self
    obtain ⟨cs, hcs, hPs⟩ := ih fun y hy => h y (List.mem_cons_of_mem x hy)
    refine ⟨c :: cs, ?_, .cons hP hPs⟩
    simp only [List.mapM_cons]
    exact hc.bind (hcs.bind (const (f c :: cs.map f)))

theorem anyM {run : ℕ → α → Option Bool} {p : α → Bool} {l : List α}
    (h : ∀ x ∈ l, Settles (fun fuel => run fuel x) (p x)) :
    Settles (fun fuel => l.anyM (run fuel)) (l.any p) := by
  induction l with
  | nil => exact const false
  | cons x l ih =>
    have hx := h x List.mem_cons_self
    have hl := ih fun y hy => h y (List.mem_cons_of_mem x hy)
    simp only [List.anyM_cons, List.any_cons]
    cases hp : p x with
    | true =>
      rw [hp] at hx
      exact hx.bind (const true)
    | false =>
      rw [hp] at hx
      exact hx.bind hl

end Settles

end ProcessExplorer.Library
