import AsmOperand.Text

/-!
# Slices by signed columns

A column below zero counts from the end, and a column outside the text is moved to its nearer end.
A slice whose end lies before its start is empty. The main statement is `slice_nat`: between two
ordinary columns a slice is a `drop` followed by a `take`.
-/

namespace AsmOperand.Text

/-- The ordinary column that a signed column of a text of length `n` stands for. -/
def column (n : Nat) (i : Int) : Nat :=
  if i < 0 then (i + n).toNat else min i.toNat n

theorem column_le (n : Nat) (i : Int) : column n i ≤ n := by
  simp only [column]
  split <;> omega

theorem column_natCast {n k : Nat} (h : k ≤ n) : column n k = k := by
  simp only [column]
  split <;> omega

/-- The characters from column `a` up to column `b`. -/
def slice (t : Text) (a b : Int) : Text :=
  (t.drop (column t.length a)).take (column t.length b - column t.length a)

theorem slice_nat (t : Text) {a b : Nat} (ha : a ≤ t.length) (hb : b ≤ t.length) :
    t.slice a b = (t.drop a).take (b - a) := by
  simp only [slice, column_natCast ha, column_natCast hb]

theorem length_slice (t : Text) (a b : Int) :
    (t.slice a b).length = column t.length b - column t.length a := by
  simp only [slice, List.length_drop, List.length_take]
  have := column_le t.length b
  omega

/-- A slice is no longer than the distance between its two columns, if these are in order. -/
theorem length_slice_le (t : Text) {a b : Int} (h : a ≤ b) :
    (t.slice a b).length ≤ (b - a).toNat := by
  rw [length_slice]
  simp only [column]
  split <;> split <;> omega

/-- The first `k` characters; a `k` below zero leaves out that many at the end. -/
def cut (t : Text) (k : Int) : Text := t.take (column t.length k)

theorem cut_natCast (t : Text) (k : Nat) : t.cut k = t.take k := by
  simp only [cut, column]
  split
  · omega
  · rw [Int.toNat_natCast]
    rcases Nat.le_total k t.length with h | h
    · rw [Nat.min_eq_left h]
    · rw [Nat.min_eq_right h, List.take_of_length_le (Nat.le_refl _), List.take_of_length_le h]

end AsmOperand.Text
