import Mathlib.Data.List.DropRight

/-! A buffer that is pushed at the back and trimmed from the front keeps
exactly the newest entries of the log it has been fed. -/
namespace ProcessExplorer.Library
variable {α β : Type}

/-- Entries leave at the front while the buffer is longer than its capacity. -/
def trimFront (capacity : Nat) : List α → List α
  | [] => []
  | x :: xs => if (x :: xs).length > capacity then trimFront capacity xs else x :: xs

theorem trimFront_eq_rtake (capacity : Nat) (l : List α) : trimFront capacity l = l.rtake capacity := by
  induction l with
  | nil => simp [trimFront]
  | cons x xs ih =>
    rw [trimFront, ih]
    simp only [List.rtake, List.length_cons]
    split
    · rw [show xs.length + 1 - capacity = xs.length - capacity + 1 by omega, List.drop_succ_cons]
    · rw [show xs.length + 1 - capacity = 0 by omega, List.drop_zero]

theorem length_rtake (n : Nat) (l : List α) : (l.rtake n).length = min n l.length := by
  simp only [List.rtake, List.length_drop]
  omega

theorem rtake_of_length_le {n : Nat} {l : List α} (h : l.length ≤ n) : l.rtake n = l := by
  simp [List.rtake, Nat.sub_eq_zero_of_le h]

theorem rtake_append_of_le {n : Nat} (l r : List α) (h : n ≤ r.length) :
    (l ++ r).rtake n = r.rtake n := by
  simp only [List.rtake, List.length_append]
  rw [List.drop_append, List.drop_of_length_le (by omega), List.nil_append]
  congr 1
  omega

theorem rtake_append_of_ge {n : Nat} (l r : List α) (h : r.length ≤ n) :
    (l ++ r).rtake n = l.rtake (n - r.length) ++ r := by
  simp only [List.rtake, List.length_append]
  rw [List.drop_append_of_le_length (by omega)]
  congr 2
  omega

/-- Trimming before a push is absorbed by the trim after it. -/
theorem rtake_rtake_append (n : Nat) (l r : List α) :
    (l.rtake n ++ r).rtake n = (l ++ r).rtake n := by
  rcases Nat.le_total n r.length with h | h
  · rw [rtake_append_of_le _ _ h, rtake_append_of_le _ _ h]
  · rw [rtake_append_of_ge _ _ h, rtake_append_of_ge _ _ h]
    congr 1
    simp only [List.rtake, List.length_drop, List.drop_drop]
    congr 1
    omega

theorem rtake_concat (n : Nat) (hn : 0 < n) (l : List α) (x : α) :
    (l ++ [x]).rtake n = l.rtake (n - 1) ++ [x] := by
  rw [rtake_append_of_ge _ _ (show [x].length ≤ n from hn)]
  rfl

theorem getLast?_rtake {n : Nat} (hn : 0 < n) (l : List α) : (l.rtake n).getLast? = l.getLast? := by
  induction l using List.reverseRecOn with
  | nil => simp
  | append_singleton l x _ => rw [rtake_concat n hn, List.getLast?_concat, List.getLast?_concat]

theorem map_rtake (f : α → β) (n : Nat) (l : List α) : (l.rtake n).map f = (l.map f).rtake n := by
  simp [List.rtake, List.map_drop]

theorem mem_of_mem_rtake {n : Nat} {l : List α} {x : α} (h : x ∈ l.rtake n) : x ∈ l :=
  List.mem_of_mem_drop h

/-- The entries that stay keep the number they got when they were pushed. -/
theorem mem_rtake_zipIdx {capacity n : Nat} {l : List α} {x : α} :
    (x, n) ∈ l.zipIdx.rtake capacity ↔ l[n]? = some x ∧ l.length ≤ n + capacity := by
  rw [List.rtake, List.length_zipIdx, List.mem_iff_getElem?]
  simp only [List.getElem?_drop, List.getElem?_zipIdx, Option.map_eq_some_iff, Prod.mk.injEq]
  constructor
  · rintro ⟨i, y, hy, rfl, rfl⟩
    rw [Nat.zero_add]
    exact ⟨hy, by omega⟩
  · rintro ⟨hx, hle⟩
    refine ⟨n - (l.length - capacity), x, ?_⟩
    rw [show l.length - capacity + (n - (l.length - capacity)) = n by omega]
    exact ⟨hx, rfl, Nat.zero_add n⟩

end ProcessExplorer.Library
