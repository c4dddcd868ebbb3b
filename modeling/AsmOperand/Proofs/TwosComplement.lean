import AsmOperand.Proofs.Registers
import Mathlib.Data.Int.ModEq

/-!
# Two's complement

Every integer is congruent to exactly one of the values of a register, modulo the number of these
values, and that is the one it is wrapped to. The bits that the mask leaves tell which it is: they
are counted as they stand if the highest of them is not set, and less by that number if it is.
Sums, differences, products and the bitwise operations may be given wrapped values, since the lowest
bits of these decide the lowest bits of the result.
-/

namespace AsmOperand

namespace Bits

theorem except_mask (n m : Nat) : except (2 ^ n - 1) m = 2 ^ n - 1 - m % 2 ^ n := by
  have below : m % 2 ^ n < 2 ^ n := Nat.mod_lt _ (Nat.two_pow_pos n)
  have shape : 2 ^ n - 1 - m % 2 ^ n = 2 ^ n - (m % 2 ^ n + 1) := by omega
  rw [except_eq_ldiff, shape]
  apply Nat.eq_of_testBit_eq
  intro i
  rw [Nat.testBit_ldiff, Nat.testBit_two_pow_sub_succ below, Nat.testBit_two_pow_sub_one,
    Nat.testBit_mod_two_pow]
  cases decide (i < n) <;> simp

/-- The mask leaves the remainder, below zero as above. -/
theorem and_mask (n : Nat) (v : Int) : Bits.and v ((2 ^ n - 1 : Nat) : Int) = v % (2 ^ n : Nat) := by
  cases v with
  | ofNat m =>
    have masked : Bits.and (.ofNat m) ((2 ^ n - 1 : Nat) : Int) = (m &&& (2 ^ n - 1) : Nat) := rfl
    rw [masked, Nat.and_two_pow_sub_one_eq_mod]
    rfl
  | negSucc m =>
    -- Below zero the bits of `m` are the places that are not set.
    have masked : Bits.and (.negSucc m) ((2 ^ n - 1 : Nat) : Int) = except (2 ^ n - 1) m := rfl
    have positive := Nat.two_pow_pos n
    have below := Nat.mod_lt m positive
    rw [masked, except_mask, Int.negSucc_emod m (Int.natCast_pos.mpr positive)]
    omega

/-- The operations whose lowest bits depend on the lowest bits of the two values alone. The
complement does not look at the first value. -/
def upward : List (Int → Int → Int) :=
  [fun a b => a + b, fun a b => a - b, fun a b => a * b, Bits.and, Bits.or, Bits.xor,
    fun _ b => Bits.not b]

end Bits

namespace Width

theorem mask?_bits (n : Nat) : mask? (.bits n) = some ((2 ^ n - 1 : Nat) : Int) := by
  have notNegative : ¬(n : Int) < 0 := by omega
  have positive := Nat.two_pow_pos n
  rw [mask?, if_neg notNegative, Int.toNat_natCast, Nat.cast_sub positive]
  rfl

end Width

section Positive
variable {n : Nat} (positive : 1 ≤ n)
include positive

/-- The highest bit that is left says on which side of zero the value lies. -/
theorem signed_eq_masked (v : Int) :
    signed n v =
      if Bits.and v ((2 ^ n - 1 : Nat) : Int) < 2 ^ (n - 1) then
        Bits.and v ((2 ^ n - 1 : Nat) : Int)
      else Bits.and v ((2 ^ n - 1 : Nat) : Int) - 2 ^ n := by
  have double := Width.two_pow_toNat (n := n) (by omega)
  rw [Int.toNat_natCast] at double
  have half : (((2 ^ n : Nat) : Int) + 1) / 2 = 2 ^ (n - 1) := by omega
  rw [Bits.and_mask, signed_eq_bmod, Int.bmod_def, half]
  push_cast
  rfl

/-- Wrapping picks the one value of the register that is congruent. -/
theorem eq_signed_iff {v y : Int} :
    -2 ^ (n - 1) ≤ y ∧ y < 2 ^ (n - 1) ∧ y ≡ v [ZMOD 2 ^ n] ↔ y = signed n v := by
  have pos : (Width.bits n).Positive := Int.ofNat_le.mpr positive
  constructor
  · rintro ⟨low, high, congruent⟩
    have held : (Width.bits n).Holds y := ⟨low, high⟩
    have same : y % (2 ^ n : Nat) = v % (2 ^ n : Nat) := by
      push_cast
      exact congruent
    calc
      y = signed n y := by rw [← Width.wrapped_bits, Width.wrapped_of_holds pos held]
      _ = (y % (2 ^ n : Nat)).bmod (2 ^ n) := by rw [signed_eq_bmod, Int.emod_bmod]
      _ = (v % (2 ^ n : Nat)).bmod (2 ^ n) := by rw [same]
      _ = signed n v := by rw [signed_eq_bmod, Int.emod_bmod]
  · rintro rfl
    have held := Width.holds_wrapped pos v
    rw [Width.wrapped_bits] at held
    have same : signed n v % (2 ^ n : Nat) = v % (2 ^ n : Nat) := by
      rw [signed_eq_bmod, Int.bmod_emod]
    push_cast at same
    exact ⟨held.1, held.2, same⟩

end Positive

/-- Wrapping to a width undoes wrapping to a larger one. -/
theorem signed_signed {n k : Nat} (le : n ≤ k) (v : Int) : signed n (signed k v) = signed n v := by
  have below : (Width.bits n).le (.bits k) = true := by simpa [Width.le] using le
  rw [← Width.wrapped_bits k, signed_wrapped below]

theorem signed_upward (n : Nat) {f : Int → Int → Int} (known : f ∈ Bits.upward) (a b : Int) :
    signed n (f (signed n a) (signed n b)) = signed n (f a b) := by
  simp only [Bits.upward, List.mem_cons, List.not_mem_nil, or_false] at known
  rcases known with rfl | rfl | rfl | rfl | rfl | rfl | rfl
  · exact signed_lift BitVec.ofInt_add a b
  · exact signed_lift (ofInt_sub n) a b
  · exact signed_lift BitVec.ofInt_mul a b
  · exact signed_lift (ofInt_and n) a b
  · exact signed_lift (ofInt_or n) a b
  · exact signed_lift (ofInt_xor n) a b
  · exact signed_lift (F := fun _ y => ~~~y) (fun _ b => ofInt_not n b) a b

/-- An integer is wrapped to the one value of the register that is congruent to it, which the mask
and the highest bit below it find as well. Wrapping to a width undoes wrapping to a larger one, and
all operations that work from the lowest bits up may be given wrapped values. -/
theorem signed_residue {n : Nat} (positive : 1 ≤ n) :
    (∀ v : Int, (Width.bits n).wrap? v = some (signed n v) ∧
      (∀ y : Int, -2 ^ (n - 1) ≤ y ∧ y < 2 ^ (n - 1) ∧ y ≡ v [ZMOD 2 ^ n] ↔ y = signed n v) ∧
      ∃ m, (Width.bits n).mask? = some m ∧
        signed n v = if Bits.and v m < 2 ^ (n - 1) then Bits.and v m else Bits.and v m - 2 ^ n) ∧
    (∀ k, n ≤ k → ∀ v : Int, signed n (signed k v) = signed n v) ∧
    ∀ f ∈ Bits.upward, ∀ a b : Int, signed n (f (signed n a) (signed n b)) = signed n (f a b) := by
  refine ⟨?_, fun k le => signed_signed le, fun f known => signed_upward n known⟩
  intro v
  exact ⟨Width.wrap?_bits n v, fun y => eq_signed_iff positive,
    _, Width.mask?_bits n, signed_eq_masked positive v⟩

/-- In eight bits 200 is -56, by way of twelve bits too; the product of two values that have left the
register is that of what they are wrapped to. -/
theorem signed_residue_byte :
    1 ≤ 8 ∧ (Width.bits (8 : Nat)).wrap? 200 = some (-56) ∧
      (-2 ^ 7 ≤ (-56 : Int) ∧ (-56 : Int) < 2 ^ 7 ∧ (-56 : Int) ≡ 200 [ZMOD 2 ^ 8]) ∧
      8 ≤ 12 ∧ signed 8 (signed 12 200) = -56 ∧ (fun a b => a * b) ∈ Bits.upward ∧
      signed 8 (signed 8 200 * signed 8 (-300)) = signed 8 (200 * -300) := by
  obtain ⟨residues, narrower, operations⟩ := signed_residue (n := 8) (by decide)
  obtain ⟨wraps, only, _⟩ := residues 200
  have value : -56 = signed 8 200 := by decide
  have known : (fun a b => a * b) ∈ Bits.upward := by simp [Bits.upward]
  exact ⟨by decide, value ▸ wraps, (only (-56)).mpr value, by decide,
    (narrower 12 (by decide) 200).trans value.symm, known, operations _ known 200 (-300)⟩

end AsmOperand
