import AsmOperand.Proofs.Outcomes
import Mathlib.Data.Rat.Floor

/-!
# Shifts are exact

A shift to the left multiplies by a power of two and then wraps; that no bits are moved once the
count reaches the width makes no difference. A shift to the right is the quotient by the power,
rounded down. It is not wrapped, and need not be: it fits if the value that is shifted does.

Counts may be of any size. Without a limit on the width those are refused that are more than the
bits of the longest string, and counts below zero are refused at every width.
-/

namespace AsmOperand

/-- Between two values the operator comes to `value`, wherever it is shown. Its step is written and
then the problems, and the location counter is not read. -/
def Env.Combines (env : Env) (op : Operator) (lhs rhs value : Int) (problems : List Problem) :
    Prop :=
  ∀ shown k, Yields (env.combine op lhs rhs shown) k
    ⟨value, .combined lhs op rhs :: problems.map (.problem · shown), k⟩

namespace Env

/-- After a problem the value is zero. -/
theorem yields_refused (p : Problem) (shown : Excerpt) (k : Nat) :
    Yields (do
      Evaluation.report p shown
      return (0 : Int)) k ⟨0, [.problem p shown], k⟩ :=
  Yields.bind (Yields.report p shown k) (Yields.pure 0 k)

section Positive
variable {env : Env} (pos : env.settings.width.Positive) {op : Operator} {lhs rhs : Int}
include pos

theorem combines_of_ok (held : op = .shiftRight → env.settings.width.Holds lhs) {v : Int}
    (result : op.result env.settings lhs rhs = .ok v) :
    env.Combines op lhs rhs (env.settings.width.wrapped v) [] := by
  intro shown k
  rw [combine_eq pos rhs shown held, result]
  exact Yields.bind (f := fun _ => pure _) (Yields.write _ k) (Yields.pure _ k)

theorem combines_of_error (held : op = .shiftRight → env.settings.width.Holds lhs) {p : Problem}
    (result : op.result env.settings lhs rhs = .error p) : env.Combines op lhs rhs 0 [p] := by
  intro shown k
  rw [combine_eq pos rhs shown held, result]
  exact Yields.bind (Yields.write _ k) (yields_refused p shown k)

end Positive

end Env

/-- Rounding down is what integer division does. -/
theorem floor_div_two_pow (v : Int) (n : Nat) : ⌊(v : ℚ) / 2 ^ n⌋ = v / 2 ^ n := by
  have floor := Rat.floor_intCast_div_natCast v (2 ^ n)
  push_cast at floor
  exact floor

namespace Width

section Holds
variable {w : Width} {v : Int}

theorem holds_floor (held : w.Holds v) (n : Nat) : w.Holds ⌊(v : ℚ) / 2 ^ n⌋ := by
  have shifted := holds_shiftRight held n
  rw [Int.shiftRight_eq_div_pow] at shifted
  rw [floor_div_two_pow]
  exact_mod_cast shifted

/-- Once a shift has moved out all bits but the sign, the sign is what is left. -/
theorem floor_of_holds {w n : Nat} (held : (bits w).Holds v) (far : w - 1 ≤ n) :
    ⌊(v : ℚ) / 2 ^ n⌋ = if v < 0 then -1 else 0 := by
  obtain ⟨low, high⟩ := held
  have grow : (2 : Int) ^ (w - 1) ≤ 2 ^ n := pow_le_pow_right₀ (by decide) far
  rw [Int.toNat_natCast] at low high
  rw [floor_div_two_pow]
  split
  · rw [Int.ediv_eq_neg_one_of_neg_of_le]
    · omega
    · omega
  · rw [Int.ediv_eq_zero_of_lt]
    · omega
    · omega

end Holds

end Width

namespace Env

/-- What is refused once its step is written comes to zero. -/
theorem combines_of_refusal {env : Env} {op : Operator} {lhs rhs : Int} {p : Problem}
    (refused : ∀ shown, env.combine op lhs rhs shown = (do
      Evaluation.write (.combined lhs op rhs)
      Evaluation.report p shown
      return 0)) : env.Combines op lhs rhs 0 [p] := by
  intro shown k
  rw [refused]
  exact Yields.bind (Yields.write _ k) (yields_refused p shown k)

/-- A count below zero is refused, whatever the width. -/
theorem combines_negative (env : Env) {op : Operator} (shift : op = .shiftLeft ∨ op = .shiftRight)
    (lhs : Int) {count : Int} (negative : count < 0) :
    env.Combines op lhs count 0 [.negativeShift count] := by
  apply combines_of_refusal
  intro shown
  rcases shift with rfl | rfl
  · simp only [combine, if_pos negative]
  · simp only [combine, if_pos negative]

section Count
variable {env : Env} (lhs : Int) (n : Nat)

/-- A shift to the left is exact before it is wrapped, at a width of bits for every count. -/
theorem combines_shiftLeft (pos : env.settings.width.Positive)
    (taken : env.settings.width = .unlimited → n ≤ env.settings.shiftLimit) :
    env.Combines .shiftLeft lhs n (env.settings.width.wrapped (lhs * 2 ^ n)) [] := by
  apply combines_of_ok pos (by rintro ⟨⟩)
  have notNegative : ¬(n : Int) < 0 := by omega
  have inside : ¬(env.settings.width = .unlimited ∧ (n : Int) > env.settings.shiftLimit) := by
    rintro ⟨unlimited, large⟩
    have := taken unlimited
    omega
  simp only [Operator.result, if_neg notNegative, if_neg inside, Int.toNat_natCast]

/-- A shift to the right is the quotient rounded down, if the register holds what is shifted. -/
theorem combines_shiftRight (pos : env.settings.width.Positive)
    (held : env.settings.width.Holds lhs) :
    env.Combines .shiftRight lhs n ⌊(lhs : ℚ) / 2 ^ n⌋ [] := by
  have notNegative : ¬(n : Int) < 0 := by omega
  rw [← Width.wrapped_of_holds pos (Width.holds_floor held n)]
  apply combines_of_ok pos (fun _ => held)
  simp only [Operator.result, if_neg notNegative, Int.toNat_natCast, floor_div_two_pow]

end Count

/-- Shifts are exact. A register holds what a shift to the right leaves of a value that it holds,
and that is only the sign once all other bits are moved out. -/
theorem shifts_exact (env : Env) (lhs : Int) :
    (∀ w : Nat, 1 ≤ w → env.settings.width = .bits w → env.settings.width.Holds lhs → ∀ n : Nat,
      env.Combines .shiftLeft lhs n (signed w (lhs * 2 ^ n)) [] ∧
      env.Combines .shiftRight lhs n ⌊(lhs : ℚ) / 2 ^ n⌋ [] ∧
      env.settings.width.Holds ⌊(lhs : ℚ) / 2 ^ n⌋ ∧
      (w - 1 ≤ n → ⌊(lhs : ℚ) / 2 ^ n⌋ = if lhs < 0 then -1 else 0)) ∧
    (env.settings.width = .unlimited → ∀ n : Nat,
      env.Combines .shiftRight lhs n ⌊(lhs : ℚ) / 2 ^ n⌋ [] ∧
      (n ≤ 8 * env.settings.maxLength → env.Combines .shiftLeft lhs n (lhs * 2 ^ n) []) ∧
      (8 * env.settings.maxLength < n → ∃ p : Problem, p.kind? = some .outOfRange ∧
        p = .shiftTooLarge n (8 * env.settings.maxLength) ∧
        env.Combines .shiftLeft lhs n 0 [p])) ∧
    (∀ count < 0, ∃ p : Problem, p.kind? = some .outOfRange ∧ p = .negativeShift count ∧
      env.Combines .shiftLeft lhs count 0 [p] ∧ env.Combines .shiftRight lhs count 0 [p]) := by
  refine ⟨?_, ?_, ?_⟩
  · intro w positive width held n
    have pos : env.settings.width.Positive := by
      rw [width]
      exact Int.ofNat_le.mpr positive
    have left := combines_shiftLeft lhs n pos (by simp [width])
    have right := combines_shiftRight lhs n pos held
    have wrapped : env.settings.width.wrapped (lhs * 2 ^ n) = signed w (lhs * 2 ^ n) := by
      rw [width, Width.wrapped, Int.toNat_natCast, signed_eq_bmod]
    rw [wrapped] at left
    rw [width] at held
    refine ⟨left, right, ?_, Width.floor_of_holds held⟩
    rw [width]
    exact Width.holds_floor held n
  · intro width n
    have pos : env.settings.width.Positive := by
      rw [width]
      trivial
    have held : env.settings.width.Holds lhs := by
      rw [width]
      trivial
    have limit : env.settings.shiftLimit = 8 * env.settings.maxLength := Nat.mul_comm _ _
    refine ⟨combines_shiftRight lhs n pos held, ?_, ?_⟩
    · intro taken
      have left := combines_shiftLeft lhs n pos (by omega)
      rwa [width] at left
    · intro large
      refine ⟨_, rfl, rfl, combines_of_error pos (by rintro ⟨⟩) ?_⟩
      have notNegative : ¬(n : Int) < 0 := by omega
      have refused : env.settings.width = .unlimited ∧ (n : Int) > env.settings.shiftLimit :=
        ⟨width, by omega⟩
      simp only [Operator.result, if_neg notNegative, if_pos refused, ← limit]
  · intro count negative
    exact ⟨_, rfl, rfl, env.combines_negative (.inl rfl) lhs negative,
      env.combines_negative (.inr rfl) lhs negative⟩

/-- In eight bits `-100 < 3` loses its sign bit and `-100 > 3` is rounded down. Nothing but the sign
is left after nine places. -/
theorem shifts_exact_byte :
    let env : Env := ⟨{ Settings.default with width := .bits 8 }, fun _ => none, fun _ => 0⟩
    1 ≤ 8 ∧ env.settings.width = .bits (8 : Nat) ∧ env.settings.width.Holds (-100) ∧
      env.Combines .shiftLeft (-100) 3 (-32) [] ∧ env.Combines .shiftRight (-100) 3 (-13) [] ∧
      env.Combines .shiftLeft (-100) 9 0 [] ∧ env.Combines .shiftRight (-100) 9 (-1) [] := by
  intro env
  have held : env.settings.width.Holds (-100) := by decide
  have exact := (shifts_exact env (-100)).1 8 (by decide) rfl held
  obtain ⟨left, right, _, _⟩ := exact 3
  obtain ⟨left', right', _, sign⟩ := exact 9
  rw [sign (by decide)] at right'
  rw [floor_div_two_pow] at right
  exact ⟨by decide, rfl, held, left, right, left', right'⟩

end Env

end AsmOperand
