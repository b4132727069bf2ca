import Mathlib.Data.List.Basic

/-! Programs that put one question at a time to their surroundings.
The surroundings may stay as they are or move on between two questions. -/
namespace ProcessExplorer.Library

/-- A program over the questions `Q`, where the question `q` is answered in `A q`. -/
inductive Interaction (Q : Type) (A : Q → Type) (α : Type) where
  | pure (result : α)
  | ask (q : Q) (next : A q → Interaction Q A α)

namespace Interaction
variable {Q : Type} {A : Q → Type} {α β γ : Type}

def bind : Interaction Q A α → (α → Interaction Q A β) → Interaction Q A β
  | .pure result, f => f result
  | .ask q next, f => .ask q fun answer => (next answer).bind f

instance : Monad (Interaction Q A) where
  pure := .pure
  bind := bind

theorem bind_assoc (p : Interaction Q A α) (f : α → Interaction Q A β) (g : β → Interaction Q A γ) :
    p >>= f >>= g = p >>= fun a => f a >>= g := by
  induction p with
  | pure result => rfl
  | ask q next ih => exact congrArg (Interaction.ask q) (funext ih)

def query (q : Q) : Interaction Q A (A q) := .ask q .pure

section Still

variable (answer : ∀ q, A q)

/-- The result when the surroundings give every question one fixed answer. -/
def run : Interaction Q A α → α
  | .pure result => result
  | .ask q next => (next (answer q)).run

@[simp] theorem run_bind (p : Interaction Q A α) (f : α → Interaction Q A β) :
    run answer (p >>= f) = run answer (f (run answer p)) := by
  induction p with
  | pure result => rfl
  | ask q next ih => exact ih (answer q)

end Still

section Moving

/-- The questions put so far, each with the answer it got. -/
abbrev Transcript (Q : Type) (A : Q → Type) := List (Σ q, A q)

/-- What is left of a program once the questions of a transcript have been answered. -/
inductive Reaches : Interaction Q A α → Transcript Q A → Interaction Q A α → Prop
  | refl (p : Interaction Q A α) : Reaches p [] p
  | answered (q : Q) (next : A q → Interaction Q A α) (answer : A q) {t : Transcript Q A}
      {p : Interaction Q A α} : Reaches (next answer) t p → Reaches (.ask q next) (⟨q, answer⟩ :: t) p

namespace Reaches
variable {p : Interaction Q A α} {t t' : Transcript Q A}

theorem snoc {q : Q} {next : A q → Interaction Q A α} (h : Reaches p t (.ask q next)) (answer : A q) :
    Reaches p (t ++ [⟨q, answer⟩]) (next answer) := by
  generalize hr : Interaction.ask q next = r at h
  induction h with
  | refl p =>
    subst hr
    exact .answered q next answer (.refl _)
  | answered q' next' answer' _ ih => exact .answered q' next' answer' (ih hr)

theorem of_pure {result : α} {r : Interaction Q A α} (h : Reaches (.pure result) t r) :
    t = [] ∧ r = .pure result := by
  cases h
  exact ⟨rfl, rfl⟩

/-- A program in sequence is either still in its first part or has finished it. -/
theorem of_bind {p : Interaction Q A β} {f : β → Interaction Q A α} {r : Interaction Q A α}
    (h : Reaches (p >>= f) t r) :
    (∃ p', Reaches p t p' ∧ r = p' >>= f) ∨
    ∃ t₁ t₂ b, t = t₁ ++ t₂ ∧ Reaches p t₁ (.pure b) ∧ Reaches (f b) t₂ r := by
  induction p generalizing t with
  | pure result => exact .inr ⟨[], t, result, rfl, .refl _, h⟩
  | ask q next ih =>
    cases h with
    | refl => exact .inl ⟨_, .refl _, rfl⟩
    | answered _ _ answer h =>
      rcases ih answer h with ⟨p', hp, hr⟩ | ⟨t₁, t₂, b, rfl, hp, hf⟩
      · exact .inl ⟨p', .answered q next answer hp, hr⟩
      · exact .inr ⟨⟨q, answer⟩ :: t₁, t₂, b, rfl, .answered q next answer hp, hf⟩

theorem of_bind_pure {p : Interaction Q A β} {f : β → Interaction Q A α} {a : α}
    (h : Reaches (p >>= f) t (.pure a)) :
    ∃ t₁ t₂ b, t = t₁ ++ t₂ ∧ Reaches p t₁ (.pure b) ∧ Reaches (f b) t₂ (.pure a) := by
  rcases of_bind h with ⟨p', hp, hr⟩ | h
  · cases p' with
    | pure b => exact ⟨t, [], b, by simp, hp, hr ▸ .refl _⟩
    | ask q next => cases hr
  · exact h

/-- Transcripts of two parts are one of their sequence. -/
theorem bind {p : Interaction Q A β} {f : β → Interaction Q A α} {r : Interaction Q A α} {b : β}
    (hp : Reaches p t (.pure b)) (hf : Reaches (f b) t' r) : Reaches (p >>= f) (t ++ t') r := by
  generalize hx : Interaction.pure b = x at hp
  induction hp with
  | refl p =>
    subst hx
    exact hf
  | answered q next answer _ ih => exact .answered q _ answer (ih hx)

/-- A sequence stands at a question of its first part, or has finished that. -/
theorem bind_cases {p : Interaction Q A β} {f : β → Interaction Q A α} {r : Interaction Q A α}
    (h : Reaches (p >>= f) t r) :
    (∃ q next, Reaches p t (.ask q next) ∧ r = .ask q fun answer => next answer >>= f) ∨
    ∃ t₁ t₂ b, t = t₁ ++ t₂ ∧ Reaches p t₁ (.pure b) ∧ Reaches (f b) t₂ r := by
  rcases of_bind h with ⟨p', hp, hr⟩ | h
  · cases p' with
    | pure b => exact .inr ⟨t, [], b, by simp, hp, hr ▸ .refl _⟩
    | ask q next => exact .inl ⟨q, next, hp, hr⟩
  · exact .inr h

/-- A program whose result is only mapped has no further part. -/
theorem of_map {p : Interaction Q A β} {g : β → α} {r : Interaction Q A α}
    (h : Reaches (p >>= fun b => .pure (g b)) t r) : ∃ p', Reaches p t p' ∧ r = p' >>= fun b => .pure (g b) := by
  rcases of_bind h with h | ⟨t₁, t₂, b, rfl, hp, hg⟩
  · exact h
  · obtain ⟨rfl, rfl⟩ := of_pure hg
    exact ⟨.pure b, by simpa using hp, rfl⟩

/-- A transcript that finishes the program is not a proper part of another one of it. -/
theorem append_of_pure {result : α} {r : Interaction Q A α} (h : Reaches p t (.pure result))
    (h' : Reaches p (t ++ t') r) : t' = [] ∧ r = .pure result := by
  generalize hx : Interaction.pure result = x at h
  induction h with
  | refl p =>
    subst hx
    exact of_pure h'
  | answered q next answer _ ih =>
    cases h' with
    | answered _ _ _ h' => exact ih h' hx

theorem unique {r r' : Interaction Q A α} (h : Reaches p t r) (h' : Reaches p t r') : r = r' := by
  induction h with
  | refl p => cases h'; rfl
  | answered q next answer _ ih =>
    cases h' with
    | answered _ _ _ h' => exact ih h'

end Reaches

/-- The transcript of a run in surroundings that do not change. -/
def transcript (answer : ∀ q, A q) : Interaction Q A α → Transcript Q A
  | .pure _ => []
  | .ask q next => ⟨q, answer q⟩ :: (next (answer q)).transcript answer

theorem reaches_run (answer : ∀ q, A q) (p : Interaction Q A α) :
    Reaches p (p.transcript answer) (.pure (p.run answer)) := by
  induction p with
  | pure result => exact .refl _
  | ask q next ih => exact .answered q next (answer q) (ih (answer q))

theorem answer_of_mem_transcript (answer : ∀ q, A q) (p : Interaction Q A α) {x : Σ q, A q}
    (h : x ∈ p.transcript answer) : x.2 = answer x.1 := by
  induction p with
  | pure result => simp [transcript] at h
  | ask q next ih =>
    rcases List.mem_cons.mp h with rfl | h
    · rfl
    · exact ih (answer q) h

/-- A run whose surroundings happen not to change ends with their result. -/
theorem result_of_reaches (answer : ∀ q, A q) {p : Interaction Q A α} {t : Transcript Q A} {result : α}
    (h : Reaches p t (.pure result)) (ht : ∀ x ∈ t, x.2 = answer x.1) : result = p.run answer := by
  induction p generalizing t with
  | pure result' => exact (Interaction.pure.inj (Reaches.of_pure h).2)
  | ask q next ih =>
    cases h with
    | answered _ _ a h =>
      obtain rfl : a = answer q := ht ⟨q, a⟩ List.mem_cons_self
      exact ih _ h fun x hx => ht x (List.mem_cons_of_mem _ hx)

theorem transcript_bind (answer : ∀ q, A q) (p : Interaction Q A α) (f : α → Interaction Q A β) :
    (p >>= f).transcript answer = p.transcript answer ++ (f (p.run answer)).transcript answer := by
  induction p with
  | pure result => rfl
  | ask q next ih => exact congrArg (List.cons _) (ih (answer q))

end Moving

section Embedding
variable {R : Type} {B : R → Type} (e : Q → R)

/-- A program over some questions, as a program over more of them. -/
def embed : Interaction Q (fun q => B (e q)) α → Interaction R B α
  | .pure result => .pure result
  | .ask q next => .ask (e q) fun answer => (next answer).embed

theorem run_embed (answer : ∀ r, B r) (p : Interaction Q (fun q => B (e q)) α) :
    (p.embed e).run answer = p.run fun q => answer (e q) := by
  induction p with
  | pure result => rfl
  | ask q next ih => exact ih (answer (e q))

theorem transcript_embed (answer : ∀ r, B r) (p : Interaction Q (fun q => B (e q)) α) :
    (p.embed e).transcript answer =
      (p.transcript fun q => answer (e q)).map fun x => ⟨e x.1, x.2⟩ := by
  induction p with
  | pure result => rfl
  | ask q next ih => exact congrArg (List.cons _) (ih (answer (e q)))

theorem Reaches.of_embed {p : Interaction Q (fun q => B (e q)) α} {t : Transcript R B}
    {r : Interaction R B α} (h : Reaches (p.embed e) t r) :
    ∃ (t' : Transcript Q fun q => B (e q)) (p' : Interaction Q (fun q => B (e q)) α),
      t = t'.map (fun x => ⟨e x.1, x.2⟩) ∧ Reaches p t' p' ∧ r = p'.embed e := by
  induction p generalizing t with
  | pure result =>
    obtain ⟨rfl, rfl⟩ := of_pure h
    exact ⟨[], .pure result, rfl, .refl _, rfl⟩
  | ask q next ih =>
    cases h with
    | refl => exact ⟨[], .ask q next, rfl, .refl _, rfl⟩
    | answered _ _ answer h =>
      obtain ⟨t', p', rfl, hp, hr⟩ := ih answer h
      have hp' : Reaches (A := fun q => B (e q)) (.ask q next) (⟨q, answer⟩ :: t') p' :=
        .answered (A := fun q => B (e q)) q next answer hp
      exact ⟨⟨q, answer⟩ :: t', p', rfl, hp', hr⟩

end Embedding

section Fallible
variable {ε : Type} {x : ExceptT ε (Interaction Q A) α} {f : α → ExceptT ε (Interaction Q A) β}
  {t : Transcript Q A}

theorem Reaches.of_bind_ok {b : β} (h : Reaches (x >>= f).run t (.pure (.ok b))) :
    ∃ t₁ t₂ a, t = t₁ ++ t₂ ∧ Reaches x.run t₁ (.pure (.ok a)) ∧
      Reaches (f a).run t₂ (.pure (.ok b)) := by
  rcases of_bind h with ⟨p, hp, hr⟩ | ⟨t₁, t₂, _ | a, ht, hx, hf⟩
  · match p, hr with
    | .pure (.ok a), hr => exact ⟨t, [], a, by simp, hp, hr ▸ .refl _⟩
    | .pure (.error e), hr => cases hr
  · cases (of_pure hf).2
  · exact ⟨t₁, t₂, a, ht, hx, hf⟩

end Fallible

end Interaction

end ProcessExplorer.Library
