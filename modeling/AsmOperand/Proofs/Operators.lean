import AsmOperand.Evaluation
import AsmOperand.Proofs.Registers

/-!
# What operators compute

`Operator.result` says in exact arithmetic what an operator makes of two values, or which problem
keeps it from making anything of them. Evaluation agrees: it wraps the result to the width, and it
goes on with zero after a problem. A shift to the right is not wrapped, so that its left value has
to be one that the register holds.
-/

namespace AsmOperand

/-- What the operator makes of `a` on its left and `b` on its right. -/
def Operator.result (s : Settings) (a b : Int) : Operator → Except Problem Int
  | .minus => .ok (a - b)
  | .plus => .ok (a + b)
  | .times => .ok (a * b)
  | .or => .ok (Int.lor a b)
  | .and => .ok (Int.land a b)
  | .xor => .ok (Int.xor a b)
  | .complement => .ok (-b - 1)
  | .divide => if b = 0 then .error .divisionByZero else .ok (a.tdiv b)
  | .modulo => if b = 0 then .error .divisionByZero else .ok (a.tmod b)
  | .shiftLeft =>
    if b < 0 then .error (.negativeShift b)
    else if s.width = .unlimited ∧ b > s.shiftLimit then .error (.shiftTooLarge b s.shiftLimit)
    else .ok (a * 2 ^ b.toNat)
  | .shiftRight => if b < 0 then .error (.negativeShift b) else .ok (a / 2 ^ b.toNat)

namespace Env

open Evaluation

section Positive
variable {env : Env} (pos : env.settings.width.Positive)
include pos

theorem wrap_eq (v : Int) : env.wrap v = pure (env.settings.width.wrapped v) := by
  simp only [wrap, Width.wrap?_eq_wrapped pos]

theorem shiftLeft_eq (lhs : Int) (n : Nat) (shown : Excerpt) :
    env.shiftLeft lhs n shown =
      if env.settings.width = .unlimited ∧ (n : Int) > env.settings.shiftLimit then do
        report (.shiftTooLarge n env.settings.shiftLimit) shown
        return 0
      else pure (env.settings.width.wrapped (lhs * 2 ^ n)) := by
  simp only [shiftLeft]
  rw [wrap_eq pos, Bits.shiftLeft_eq, Int.toNat_natCast]
  cases env.settings.width with
  | unlimited => simp only [true_and]
  | bits m =>
    simp only [reduceCtorEq, false_and, if_false]
    split
    · rename_i out
      rw [Width.wrapped_mul_two_pow out]
    · rfl

/-- An operator writes its step, and then either its result is kept or its problem reported. -/
theorem combine_eq {op : Operator} {lhs : Int} (rhs : Int) (shown : Excerpt)
    (held : op = .shiftRight → env.settings.width.Holds lhs) :
    env.combine op lhs rhs shown = (do
      write (.combined lhs op rhs)
      match op.result env.settings lhs rhs with
      | .ok v => pure (env.settings.width.wrapped v)
      | .error p => do
        report p shown
        return 0) := by
  simp only [combine]
  congr 1
  funext _
  cases op with
  | minus => exact wrap_eq pos _
  | plus => exact wrap_eq pos _
  | times => exact wrap_eq pos _
  | or => exact (wrap_eq pos _).trans (by rw [Bits.or_eq_lor]; rfl)
  | and => exact (wrap_eq pos _).trans (by rw [Bits.and_eq_land]; rfl)
  | xor => exact (wrap_eq pos _).trans (by rw [Bits.xor_eq_xor]; rfl)
  | complement => exact wrap_eq pos _
  | divide =>
    by_cases zero : rhs = 0
    · subst zero
      rw [quotient?_zero, Operator.result, if_pos rfl]
    · simp only [quotient?_eq_tdiv lhs zero, Operator.result, if_neg zero, wrap_eq pos]
  | modulo =>
    by_cases zero : rhs = 0
    · subst zero
      rw [remainder?_zero, Operator.result, if_pos rfl]
    · simp only [remainder?_eq_tmod lhs zero, Operator.result, if_neg zero, wrap_eq pos]
  | shiftLeft =>
    by_cases negative : rhs < 0
    · simp only [Operator.result, if_pos negative]
    · obtain ⟨n, rfl⟩ := Int.eq_ofNat_of_zero_le (Int.not_lt.mp negative)
      simp only [Operator.result, if_neg negative, shiftLeft_eq pos, Int.toNat_natCast]
      split <;> rfl
  | shiftRight =>
    by_cases negative : rhs < 0
    · simp only [Operator.result, if_pos negative]
    · have kept := Width.wrapped_of_holds pos (Width.holds_shiftRight (held rfl) rhs.toNat)
      simp only [Operator.result, if_neg negative]
      rw [Int.shiftRight_eq_div_pow] at kept ⊢
      push_cast at kept ⊢
      rw [kept]

end Positive

end Env

end AsmOperand
