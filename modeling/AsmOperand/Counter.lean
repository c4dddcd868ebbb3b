/-!
# Location counters

The location counter is read whenever `$` is evaluated. It is either a fixed number or a list of
readings that are handed out one after the other, the last of them again and again.
-/

namespace AsmOperand

structure Counter where
  first : Int
  later : List Int := []
  deriving DecidableEq, Repr

namespace Counter

def fixed (v : Int) : Counter := ⟨v, []⟩

/-- The reading after `k` others. -/
def reading (c : Counter) (k : Nat) : Int :=
  ((c.first :: c.later)[k]?).getD (c.later.getLastD c.first)

theorem reading_fixed (v : Int) (k : Nat) : (fixed v).reading k = v := by
  cases k <;> simp [fixed, reading]

example : (List.range 4).map (Counter.mk 7 [8, 9]).reading = [7, 8, 9, 9] := by decide

end Counter

end AsmOperand
