/-!
# Widths and wrapping

A value of `n` bits is kept as the integer that its bit pattern stands for in two's complement.
`signed n` takes any integer there; it is the balanced remainder modulo `2 ^ n`. What is shorter
than the width is kept at once, so that a short value costs no more at an enormous width. Without
a limit on the width nothing is taken away.

A width may be asked for with any integer. One below zero has no bit patterns, and wrapping to it
has no result; a width of zero leaves only the value zero.
-/

namespace AsmOperand

/-- The number of bits that values are wrapped to. -/
inductive Width where
  | bits (n : Int)
  | unlimited
  deriving DecidableEq, Repr

/-- The two's complement value of the lowest `n` bits of `v`. -/
def signed (n : Nat) (v : Int) : Int :=
  if v.natAbs.log2 + 1 < n then v else v.bmod (Nat.pow 2 n)

theorem signed_zero (v : Int) : signed 0 v = 0 := by
  simp [signed, Int.bmod]

namespace Width

/-- The value that a register of this width holds after `v` is stored in it. -/
def wrap? : Width → Int → Option Int
  | .unlimited, v => some v
  | .bits n, v => if n < 0 then none else some (signed n.toNat v)

/-- All bits of the width set; without a limit every bit is. -/
def mask? : Width → Option Int
  | .unlimited => some (-1)
  | .bits n => if n < 0 then none else some (Nat.pow 2 n.toNat - 1)

/-- A width that leaves room for a value. -/
def Positive : Width → Prop
  | .unlimited => True
  | .bits n => 1 ≤ n

instance (w : Width) : Decidable w.Positive := by
  cases w <;> unfold Positive <;> infer_instance

theorem wrap?_unlimited (v : Int) : wrap? .unlimited v = some v := rfl

theorem wrap?_bits (n : Nat) (v : Int) : wrap? (.bits n) v = some (signed n v) := by
  have : ¬(n : Int) < 0 := by omega
  simp [wrap?, this]

theorem wrap?_eq_none_iff (w : Width) (v : Int) : w.wrap? v = none ↔ ∃ n < 0, w = .bits n := by
  cases w with
  | unlimited => simp [wrap?]
  | bits n => simp [wrap?]

end Width

end AsmOperand
