import Mathlib.Data.List.Induction

/-! Runs of a deterministic machine that reads one input and emits outputs at
every step: append laws and the induction rules for invariants of a run. -/
namespace ProcessExplorer.Library

/-- A machine with state S, inputs I and outputs O. -/
structure Machine (S I O : Type) where
  step : S → I → S
  emit : S → I → List O

namespace Machine
variable {S I O : Type} (m : Machine S I O)

def run (s : S) (inputs : List I) : S := inputs.foldl m.step s

/-- Everything emitted along a run, oldest first. -/
def trace (s : S) : List I → List O
  | [] => []
  | i :: rest => m.emit s i ++ trace (m.step s i) rest

@[simp] theorem run_nil (s : S) : m.run s [] = s := rfl

@[simp] theorem run_cons (s : S) (i : I) (rest : List I) :
    m.run s (i :: rest) = m.run (m.step s i) rest := rfl

@[simp] theorem run_append (s : S) (l r : List I) : m.run s (l ++ r) = m.run (m.run s l) r :=
  List.foldl_append

@[simp] theorem trace_nil (s : S) : m.trace s [] = [] := rfl

@[simp] theorem trace_append (s : S) (l r : List I) :
    m.trace s (l ++ r) = m.trace s l ++ m.trace (m.run s l) r := by
  induction l generalizing s with
  | nil => rfl
  | cons i l ih => simp [trace, ih, List.append_assoc]

@[simp] theorem trace_singleton (s : S) (i : I) : m.trace s [i] = m.emit s i := by
  simp [trace]

/-- What one step preserves, a run preserves. -/
theorem invariant {P : S → Prop} {A : I → Prop} {s : S} (h0 : P s)
    (hstep : ∀ s i, P s → A i → P (m.step s i)) (inputs : List I)
    (hA : ∀ i ∈ inputs, A i) : P (m.run s inputs) := by
  induction inputs generalizing s with
  | nil => exact h0
  | cons i rest ih =>
    exact ih (hstep s i h0 (hA i List.mem_cons_self))
      fun j hj => hA j (List.mem_cons_of_mem i hj)

end Machine
end ProcessExplorer.Library
