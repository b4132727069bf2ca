import Mathlib.Data.List.Perm.Basic
import Mathlib.Data.List.Sort

/-! Rows of a database table, sorted by a key and decoded one by one. -/
namespace ProcessExplorer.Library
variable {α β γ κ ε : Type} [LE κ]

/-- What an ORDER BY may do; the order of rows with equal keys is not promised. -/
structure OrderBy (α κ : Type) [LE κ] where
  run : (α → κ) → List α → List α
  perm : ∀ key rows, (run key rows).Perm rows
  sorted : ∀ key rows, ((run key rows).map key).Pairwise (· ≤ ·)

/-- These items, sorted by the key. -/
def Lists (key : β → κ) (expected : List β) (answer : Except ε (List β)) : Prop :=
  ∃ items, answer = .ok items ∧ (items.map key).Pairwise (· ≤ ·) ∧ items.Perm expected

theorem Lists.of_perm {key : β → κ} {expected expected' : List β} {answer : Except ε (List β)}
    (h : Lists key expected answer) (hp : expected.Perm expected') : Lists key expected' answer := by
  obtain ⟨items, hitems, hsorted, hperm⟩ := h
  exact ⟨items, hitems, hsorted, hperm.trans hp⟩

/-- The items of an answer are those expected. -/
theorem Lists.perm {key : β → κ} {expected items : List β} {answer : Except ε (List β)}
    (h : Lists key expected answer) (hi : answer = .ok items) : items.Perm expected := by
  obtain ⟨items', hitems, -, hperm⟩ := h
  obtain rfl := Except.ok.inj (hi.symm.trans hitems)
  exact hperm

theorem mapM_map_eq_ok {f : α → Except ε β} {row : γ → α} {readBack : γ → β}
    (h : ∀ c, f (row c) = .ok (readBack c)) (items : List γ) :
    (items.map row).mapM f = .ok (items.map readBack) := by
  induction items with
  | nil => rfl
  | cons c items ih =>
    rw [List.map_cons, List.mapM_cons, h, ih]
    rfl

theorem mapM_eq_error {f : α → Except ε β} {rows : List α} {row : α} {e : ε} (hm : row ∈ rows)
    (h : f row = .error e) : ∃ e', rows.mapM f = .error e' := by
  induction rows with
  | nil => cases hm
  | cons first rows ih =>
    rw [List.mapM_cons]
    cases hf : f first with
    | error e' => exact ⟨e', rfl⟩
    | ok b =>
      have hne : row ≠ first := by
        rintro rfl
        cases hf.symm.trans h
      obtain ⟨e', he⟩ := ih (List.mem_of_ne_of_mem hne hm)
      exact ⟨e', by rw [he]; rfl⟩

namespace OrderBy
variable (order : OrderBy α κ) {time : β → κ} {key : α → κ} {f : α → Except ε β} {rows : List α}

/-- A query over the rows of these items lists those that are asked for, as they are read back. -/
theorem lists_filter {row : γ → α} {readBack : γ → β} (hread : ∀ c, f (row c) = .ok (readBack c))
    (hkey : ∀ c, key (row c) = time (readBack c)) {asked : α → Bool} {wanted : β → Bool}
    (hasked : ∀ c, asked (row c) = wanted (readBack c)) (items : List γ) :
    Lists time ((items.map readBack).filter wanted)
      ((order.run key ((items.map row).filter asked)).mapM f) := by
  have hfilter : (items.map row).filter asked = (items.filter (wanted ∘ readBack)).map row := by
    rw [List.filter_map]
    exact congrArg (List.map row) (List.filter_congr fun c _ => hasked c)
  rw [hfilter, List.filter_map]
  have hsorted := order.sorted key ((items.filter (wanted ∘ readBack)).map row)
  obtain ⟨listed, hrun, hlisted⟩ := (congrFun₂ (List.eq_map_comp_perm row) _ _).mpr
    (order.perm key ((items.filter (wanted ∘ readBack)).map row))
  rw [hrun, mapM_map_eq_ok hread]
  refine ⟨listed.map readBack, rfl, ?_, hlisted.map readBack⟩
  rw [hrun, List.map_map] at hsorted
  rw [List.map_map]
  exact (List.map_congr_left fun c _ => hkey c) ▸ hsorted

/-- One row that cannot be decoded spoils the query. -/
theorem not_lists {row : α} {e : ε} (hm : row ∈ rows) (h : f row = .error e) (expected : List β) :
    ¬ Lists time expected ((order.run key rows).mapM f) := by
  rintro ⟨items, hitems, -⟩
  obtain ⟨e', he⟩ := mapM_eq_error ((order.perm key rows).mem_iff.mpr hm) h
  cases he.symm.trans hitems

/-- Sorting by insertion, which leaves equal keys in their order. -/
def insertion [DecidableLE κ] (total : ∀ a b : κ, a ≤ b ∨ b ≤ a) (trans : ∀ a b c : κ, a ≤ b → b ≤ c → a ≤ c) :
    OrderBy α κ where
  run key rows := rows.insertionSort fun a b => key a ≤ key b
  perm key rows := List.perm_insertionSort _ rows
  sorted key rows := by
    have : Std.Total fun a b => key a ≤ key b := ⟨fun a b => total (key a) (key b)⟩
    have : IsTrans α fun a b => key a ≤ key b := ⟨fun a b c => trans (key a) (key b) (key c)⟩
    exact List.pairwise_map.mpr (List.pairwise_insertionSort _ rows)

end OrderBy

end ProcessExplorer.Library
