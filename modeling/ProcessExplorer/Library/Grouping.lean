import Mathlib.Data.List.Sort

/-! Items collected under their keys in a tree map: what is pushed under one key is a fold over the
items with that key, in their order. -/
namespace ProcessExplorer.Library.Grouping
variable {κ ν β : Type} [Ord κ]

abbrev OrderedMap (κ ν : Type) [Ord κ] := Std.TreeMap κ ν

/-- The value of a key is changed; a key without one is given the empty value first. -/
def pushUnder (empty : ν) (m : OrderedMap κ ν) (key : κ) (push : ν → ν) : OrderedMap κ ν :=
  m.alter key fun value => some (push (value.getD empty))

variable [Std.TransOrd κ] [Std.LawfulEqOrd κ] [DecidableEq κ]

theorem getElem?_pushUnder (empty : ν) (m : OrderedMap κ ν) (key k : κ) (push : ν → ν) :
    (pushUnder empty m key push)[k]? = if key = k then some (push (m[k]?.getD empty)) else m[k]? := by
  rw [pushUnder, Std.TreeMap.getElem?_alter]
  simp only [Std.LawfulEqOrd.compare_eq_iff_eq]
  split_ifs with h
  · rw [h]
  · rfl

/-- A key has a value when it had one or an item has this key. -/
theorem getElem?_foldl_pushUnder (empty : ν) (key : β → κ) (push : ν → β → ν) (items : List β)
    (m : OrderedMap κ ν) (k : κ) :
    (items.foldl (fun m x => pushUnder empty m (key x) fun value => push value x) m)[k]? =
      if items.filter (key · = k) = [] then m[k]?
      else some ((items.filter (key · = k)).foldl push (m[k]?.getD empty)) := by
  induction items generalizing m with
  | nil => rfl
  | cons x items ih =>
    rw [List.foldl_cons, ih, getElem?_pushUnder]
    by_cases hx : key x = k
    · rw [List.filter_cons_of_pos (by simpa using hx), if_pos hx, if_neg (List.cons_ne_nil _ _), Option.getD_some,
        List.foldl_cons]
      split_ifs with hnone
      · rw [hnone, List.foldl_nil]
      · rfl
    · rw [List.filter_cons_of_neg (by simpa using hx), if_neg hx]

end ProcessExplorer.Library.Grouping
