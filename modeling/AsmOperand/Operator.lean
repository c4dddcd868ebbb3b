import AsmOperand.Bits

/-!
# Operators

The eleven operators, each written as one character. All stand between two values; the complement
ignores the one on its left. A quotient is found by dividing the distances from zero and then
setting the sign, and a remainder is what the quotient leaves of the dividend: `quotient?_eq_tdiv`
and `remainder?_eq_tmod` say that this is division cut toward zero.
-/

namespace AsmOperand

inductive Operator where
  | minus
  | plus
  | times
  | divide
  | modulo
  | shiftLeft
  | shiftRight
  | or
  | and
  | xor
  | complement
  deriving DecidableEq, Repr

namespace Operator

/-- The character that the operator is written as. -/
def symbol : Operator → Char
  | .minus => '-'
  | .plus => '+'
  | .times => '*'
  | .divide => '/'
  | .modulo => '%'
  | .shiftLeft => '<'
  | .shiftRight => '>'
  | .or => '|'
  | .and => '&'
  | .xor => '^'
  | .complement => '~'

def ofChar? : Char → Option Operator
  | '-' => some .minus
  | '+' => some .plus
  | '*' => some .times
  | '/' => some .divide
  | '%' => some .modulo
  | '<' => some .shiftLeft
  | '>' => some .shiftRight
  | '|' => some .or
  | '&' => some .and
  | '^' => some .xor
  | '~' => some .complement
  | _ => none

theorem ofChar?_symbol (op : Operator) : ofChar? op.symbol = some op := by
  cases op <;> rfl

theorem symbol_of_ofChar? {c : Char} {op : Operator} (h : ofChar? c = some op) :
    op.symbol = c := by
  unfold ofChar? at h
  split at h <;> cases h <;> rfl

end Operator

/-- Does the character stand for an operator? -/
def isOperator (c : Char) : Bool := (Operator.ofChar? c).isSome

theorem isOperator_iff {c : Char} : isOperator c = true ↔ ∃ op : Operator, op.symbol = c := by
  constructor
  · intro h
    obtain ⟨op, known⟩ := Option.isSome_iff_exists.mp h
    exact ⟨op, Operator.symbol_of_ofChar? known⟩
  · rintro ⟨op, rfl⟩
    rw [isOperator, Operator.ofChar?_symbol]
    rfl

/-- How often `b` goes into `a`, if it can be said: the distances from zero are divided, and the
quotient is below zero if just one of the two values is. -/
def quotient? (a b : Int) : Option Int :=
  if b = 0 then none
  else
    let q : Int := (a.natAbs / b.natAbs : Nat)
    some (if a < 0 ↔ b < 0 then q else -q)

/-- What `quotient?` leaves over. -/
def remainder? (a b : Int) : Option Int := (quotient? a b).map fun q => a - b * q

theorem quotient?_zero (a : Int) : quotient? a 0 = none := rfl

theorem remainder?_zero (a : Int) : remainder? a 0 = none := rfl

section Nonzero
variable (a : Int) {b : Int} (nonzero : b ≠ 0)
include nonzero

theorem quotient?_eq_tdiv : quotient? a b = some (a.tdiv b) := by
  have above (n : Nat) : ¬Int.ofNat n < 0 := Int.not_lt.mpr (Int.natCast_nonneg n)
  have below (n : Nat) : Int.negSucc n < 0 := Int.negSucc_lt_zero n
  have cut : (if a < 0 ↔ b < 0 then ((a.natAbs / b.natAbs : Nat) : Int)
      else -(a.natAbs / b.natAbs : Nat)) = a.tdiv b := by
    -- Division toward zero is defined by the signs of the two values.
    cases a with
    | ofNat m =>
      cases b with
      | ofNat n => exact if_pos (iff_of_false (above m) (above n))
      | negSucc n => exact if_neg fun same => above m (same.mpr (below n))
    | negSucc m =>
      cases b with
      | ofNat n => exact if_neg fun same => above n (same.mp (below m))
      | negSucc n => exact if_pos (iff_of_true (below m) (below n))
  rw [quotient?, if_neg nonzero, ← cut]

theorem remainder?_eq_tmod : remainder? a b = some (a.tmod b) := by
  rw [remainder?, quotient?_eq_tdiv a nonzero, Int.tmod_def]
  rfl

end Nonzero

end AsmOperand
