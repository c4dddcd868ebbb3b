import AsmOperand.Proofs.Shifts

/-!
# Quotients are cut toward zero

A quotient and what it leaves over are the only two integers that put the dividend together again
with a rest that is smaller than the divisor and not of the other sign. A register that holds the
dividend holds both of them, but for one quotient: the lowest value divided by minus one is one more
than the highest. It wraps back to the lowest value. Since only whole registers are lost there, the
two put the dividend together again all the same, once the sum is wrapped.
-/

namespace AsmOperand

/-- `b` goes `q` times into `a`, cut toward zero, and leaves `r`. -/
structure Divides (a b q r : Int) : Prop where
  sum : a = b * q + r
  smaller : r.natAbs < b.natAbs
  sign : r = 0 ∨ r.sign = a.sign

namespace Divides

variable {a b q r q' r' : Int}

/-- What is left over is on the same side of zero as the dividend. -/
theorem side (h : Divides a b q r) : (0 ≤ a → 0 ≤ r) ∧ (a ≤ 0 → r ≤ 0) := by
  rcases h.sign with zero | same
  · omega
  · constructor
    · intro positive
      exact Int.sign_nonneg_iff.mp (same ▸ Int.sign_nonneg_iff.mpr positive)
    · intro negative
      exact Int.sign_nonpos_iff.mp (same ▸ Int.sign_nonpos_iff.mpr negative)

theorem unique (h : Divides a b q r) (h' : Divides a b q' r') : q' = q ∧ r' = r := by
  have nonzero : b ≠ 0 := by
    rintro rfl
    exact Nat.not_lt_zero _ h.smaller
  -- Both rests lie on one side of zero, so they are closer to each other than the divisor is wide.
  have rests : r - r' = 0 := by
    apply Int.eq_zero_of_dvd_of_natAbs_lt_natAbs (d := b)
    · refine ⟨q' - q, ?_⟩
      have sums := h.sum.symm.trans h'.sum
      rw [Int.mul_sub]
      omega
    · have side := h.side
      have side' := h'.side
      have smaller := h.smaller
      have smaller' := h'.smaller
      omega
  have products : b * q' = b * q := by
    have sums := h.sum.symm.trans h'.sum
    omega
  exact ⟨Int.eq_of_mul_eq_mul_left nonzero products, by omega⟩

end Divides

theorem divides_tdiv (a : Int) {b : Int} (nonzero : b ≠ 0) :
    Divides a b (a.tdiv b) (a.tmod b) := by
  refine ⟨(Int.mul_tdiv_add_tmod a b).symm, ?_, ?_⟩
  · rw [Int.natAbs_tmod]
    exact Nat.mod_lt _ (Int.natAbs_pos.mpr nonzero)
  · by_cases whole : b ∣ a
    · exact .inl (Int.tmod_eq_zero_of_dvd whole)
    · exact .inr (by rw [Int.sign_tmod, if_neg whole])

/-- The quotient and the remainder are what cutting toward zero makes of the two values; there is
neither if nothing does. -/
theorem divides_iff {a b q r : Int} :
    Divides a b q r ↔ quotient? a b = some q ∧ remainder? a b = some r := by
  by_cases zero : b = 0
  · subst zero
    rw [quotient?_zero, remainder?_zero]
    constructor
    · intro h
      exact absurd h.smaller (Nat.not_lt_zero _)
    · rintro ⟨⟨⟩, _⟩
  · rw [quotient?_eq_tdiv a zero, remainder?_eq_tmod a zero, Option.some.injEq, Option.some.injEq]
    constructor
    · intro h
      exact h.unique (divides_tdiv a zero)
    · rintro ⟨rfl, rfl⟩
      exact divides_tdiv a zero

namespace Width

section Holds
variable {w : Width} {a b : Int}

/-- What is left over is no farther from zero than the dividend, and on the same side. -/
theorem holds_tmod (held : w.Holds a) (nonzero : b ≠ 0) : w.Holds (a.tmod b) := by
  cases w with
  | unlimited => trivial
  | bits n =>
    have side := (divides_tdiv a nonzero).side
    have near : (a.tmod b).natAbs ≤ a.natAbs := by
      rw [Int.natAbs_tmod]
      exact Nat.mod_le _ _
    simp only [Holds] at held ⊢
    omega

/-- Only dividing by minus one moves a value to the other side of zero and leaves it as far away. -/
theorem holds_tdiv {n : Int} (held : (bits n).Holds a)
    (other : ¬(a = -2 ^ (n.toNat - 1) ∧ b = -1)) : (bits n).Holds (a.tdiv b) := by
  have half : 0 < (2 : Int) ^ (n.toNat - 1) := Int.pow_pos (by decide)
  simp only [Holds] at held ⊢
  by_cases small : b.natAbs ≤ 1
  · obtain rfl | rfl | rfl : b = 0 ∨ b = 1 ∨ b = -1 := by omega
    · rw [Int.tdiv_zero]
      omega
    · rw [Int.tdiv_one]
      exact held
    · rw [Int.tdiv_neg, Int.tdiv_one]
      omega
  · have near : (a.tdiv b).natAbs ≤ a.natAbs / 2 := by
      rw [Int.natAbs_tdiv]
      exact Nat.div_le_div_left (by omega) (by decide)
    omega

end Holds

/-- The quotient that is not held wraps back to the dividend. -/
theorem wrapped_tdiv_lowest {n : Int} (positive : 1 ≤ n) :
    (bits n).wrapped (Int.tdiv (-2 ^ (n.toNat - 1)) (-1)) = -2 ^ (n.toNat - 1) := by
  have double := two_pow_toNat positive
  have lowest : (bits n).Holds (-2 ^ (n.toNat - 1)) := by
    have half : 0 < (2 : Int) ^ (n.toNat - 1) := Int.pow_pos (by decide)
    simp only [Holds]
    omega
  have whole : Int.tdiv (-2 ^ (n.toNat - 1)) (-1) = -2 ^ (n.toNat - 1) + (2 ^ n.toNat : Nat) := by
    rw [Int.tdiv_neg, Int.tdiv_one]
    omega
  rw [whole, wrapped, Int.add_bmod_right]
  exact wrapped_of_holds (w := bits n) positive lowest

end Width

/-- The sum is the same after wrapping whether the quotient was wrapped before or not. -/
theorem signed_sum (n : Nat) (b q r : Int) :
    signed n (b * signed n q + r) = signed n (b * q + r) := by
  rw [signed_eq_signed_iff, BitVec.ofInt_add, BitVec.ofInt_add, BitVec.ofInt_mul, BitVec.ofInt_mul,
    ofInt_signed]

namespace Env

section Nonzero
variable {env : Env} (pos : env.settings.width.Positive) (a : Int) {b : Int} (nonzero : b ≠ 0)
include pos nonzero

theorem combines_divide : env.Combines .divide a b (env.settings.width.wrapped (a.tdiv b)) [] :=
  combines_of_ok pos (by rintro ⟨⟩) (if_neg nonzero)

theorem combines_modulo : env.Combines .modulo a b (env.settings.width.wrapped (a.tmod b)) [] :=
  combines_of_ok pos (by rintro ⟨⟩) (if_neg nonzero)

end Nonzero

/-- Nothing can be divided by zero, whatever the width. -/
theorem combines_zero (env : Env) {op : Operator} (division : op = .divide ∨ op = .modulo)
    (a : Int) : env.Combines op a 0 0 [.divisionByZero] := by
  apply combines_of_refusal
  intro shown
  rcases division with rfl | rfl
  · rfl
  · rfl

/-- Division cuts toward zero. At a width of bits the quotient and the remainder are exact for all
values that a register holds, but for the quotient of the lowest value and minus one, which is the
lowest value again; the sum of the two is the dividend at any rate, once it is wrapped. By zero
nothing is divided. -/
theorem division_cut (env : Env) (a b : Int) :
    (b ≠ 0 → ∃ q r, quotient? a b = some q ∧ remainder? a b = some r ∧
      ∀ q' r', Divides a b q' r' ↔ q' = q ∧ r' = r) ∧
    (∀ w : Nat, 1 ≤ w → env.settings.width = .bits w → env.settings.width.Holds a → b ≠ 0 →
      ∃ q r v, quotient? a b = some q ∧ remainder? a b = some r ∧
        v = (if a = -2 ^ (w - 1) ∧ b = -1 then -2 ^ (w - 1) else q) ∧
        env.Combines .divide a b v [] ∧ env.Combines .modulo a b r [] ∧
        signed w (b * v + r) = a) ∧
    (b = 0 → env.Combines .divide a b 0 [.divisionByZero] ∧
      env.Combines .modulo a b 0 [.divisionByZero]) := by
  refine ⟨?_, ?_, ?_⟩
  · intro nonzero
    obtain ⟨quotient, rest⟩ := divides_iff.mp (divides_tdiv a nonzero)
    refine ⟨_, _, quotient, rest, ?_⟩
    intro q r
    rw [divides_iff, quotient, rest, Option.some.injEq, Option.some.injEq, eq_comm (a := q),
      eq_comm (a := r)]
  · intro w positive width held nonzero
    have pos : env.settings.width.Positive := by
      rw [width]
      exact Int.ofNat_le.mpr positive
    have quotient := combines_divide pos a nonzero
    have rest := combines_modulo pos a nonzero
    rw [Width.wrapped_of_holds pos (Width.holds_tmod held nonzero)] at rest
    have wraps (v : Int) : env.settings.width.wrapped v = signed w v := by
      rw [width, Width.wrapped, Int.toNat_natCast, signed_eq_bmod]
    refine ⟨_, _, _, quotient?_eq_tdiv a nonzero, remainder?_eq_tmod a nonzero, ?_, quotient, rest,
      ?_⟩
    · rw [width] at pos held ⊢
      split
      · rename_i lowest
        obtain ⟨rfl, rfl⟩ := lowest
        exact Width.wrapped_tdiv_lowest pos
      · rename_i other
        exact Width.wrapped_of_holds pos (Width.holds_tdiv held other)
    · rw [wraps, signed_sum, ← (divides_tdiv a nonzero).sum, ← wraps]
      exact Width.wrapped_of_holds pos held
  · rintro rfl
    exact ⟨env.combines_zero (.inl rfl) a, env.combines_zero (.inr rfl) a⟩

/-- In eight bits -128 divided by -1 is -128 again, and -7 divided by 2 is -3, with -1 left over. -/
theorem division_cut_byte :
    let env : Env := ⟨{ Settings.default with width := .bits 8 }, fun _ => none, fun _ => 0⟩
    1 ≤ 8 ∧ env.settings.width = .bits (8 : Nat) ∧ env.settings.width.Holds (-128) ∧
      env.settings.width.Holds (-7) ∧ (-1 : Int) ≠ 0 ∧ (2 : Int) ≠ 0 ∧
      env.Combines .divide (-128) (-1) (-128) [] ∧ env.Combines .modulo (-128) (-1) 0 [] ∧
      env.Combines .divide (-7) 2 (-3) [] ∧ env.Combines .modulo (-7) 2 (-1) [] ∧
      env.Combines .divide (-7) 0 0 [.divisionByZero] := by
  intro env
  have lowest : env.settings.width.Holds (-128) := by decide
  have seven : env.settings.width.Holds (-7) := by decide
  obtain ⟨_, _, v, known, left, value, quotient, rest, _⟩ :=
    (division_cut env (-128) (-1)).2.1 8 (by decide) rfl lowest (by decide)
  obtain ⟨_, _, v', known', left', value', quotient', rest', _⟩ :=
    (division_cut env (-7) 2).2.1 8 (by decide) rfl seven (by decide)
  cases known
  cases left
  cases known'
  cases left'
  subst value value'
  exact ⟨by decide, rfl, lowest, seven, by decide, by decide, quotient, rest, quotient', rest',
    ((division_cut env (-7) 0).2.2 rfl).1⟩

end Env

end AsmOperand
