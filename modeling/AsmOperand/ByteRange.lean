import AsmOperand.Problem

/-!
# Byte operands

An instruction that takes a byte checks the value of its operand. Where both readings of a byte
are allowed, a value may have up to eight bits and a sign; where the byte is signed, up to seven.
In neither case is the range that of a two's complement byte: it is the same on both sides of
zero.
-/

namespace AsmOperand

inductive ByteRange where
  | eitherSign
  | signed
  deriving DecidableEq, Repr

namespace ByteRange

/-- The largest value. -/
def bound : ByteRange → Int
  | .eitherSign => 255
  | .signed => 127

def Contains (r : ByteRange) (v : Int) : Prop := -r.bound ≤ v ∧ v ≤ r.bound

instance (r : ByteRange) (v : Int) : Decidable (r.Contains v) := by
  unfold Contains
  infer_instance

/-- The value to go on with, and the problem if it is not the given one. -/
def check (r : ByteRange) (v : Int) : Int × Option Problem :=
  if r.Contains v then (v, none) else (0, some (.outOfRange v (-r.bound) r.bound))

theorem contains_check (r : ByteRange) (v : Int) : r.Contains (r.check v).1 := by
  unfold check
  split
  · assumption
  · cases r <;> simp [Contains, bound]

end ByteRange

end AsmOperand
