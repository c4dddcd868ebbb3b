import AsmOperand.Bits
import AsmOperand.Width.Order
import Mathlib.Data.Int.Bitwise

/-!
# Registers

Wrapping to a positive width keeps what the register holds and sends every other integer to what
it holds in its place. Two integers are wrapped alike exactly if they have the same lowest bits, so
that wrapping may be left to the end by all operations that work from the lowest bits up.
-/

namespace AsmOperand

theorem signed_eq_bmod (n : Nat) (v : Int) : signed n v = v.bmod (2 ^ n) := by
  simp only [signed]
  split
  · rename_i short
    have bound : v.natAbs < 2 ^ (v.natAbs.log2 + 1) := Nat.lt_log2_self
    have room : 2 ^ (v.natAbs.log2 + 2) ≤ 2 ^ n := Nat.pow_le_pow_right (by decide) short
    rw [Nat.pow_succ] at room
    exact (Int.bmod_eq_of_le_mul_two (by omega) (by omega)).symm
  · rfl

namespace Width

/-- The signed integers that a register of this width holds. -/
def Holds : Width → Int → Prop
  | .unlimited, _ => True
  | .bits n, v => -2 ^ (n.toNat - 1) ≤ v ∧ v < 2 ^ (n.toNat - 1)

instance : (w : Width) → (v : Int) → Decidable (w.Holds v)
  | .unlimited, _ => inferInstanceAs (Decidable True)
  | .bits n, v => inferInstanceAs (Decidable (-2 ^ (n.toNat - 1) ≤ v ∧ v < 2 ^ (n.toNat - 1)))

/-- What a register of positive width holds after `v` is stored in it. -/
def wrapped : Width → Int → Int
  | .unlimited, v => v
  | .bits n, v => v.bmod (2 ^ n.toNat)

/-- A register has twice as many values as lie below zero. -/
theorem two_pow_toNat {n : Int} (hn : 1 ≤ n) :
    ((2 ^ n.toNat : Nat) : Int) = 2 * 2 ^ (n.toNat - 1) := by
  obtain ⟨k, hk⟩ : ∃ k, n.toNat = k + 1 := ⟨n.toNat - 1, by omega⟩
  rw [hk, Nat.add_sub_cancel, Nat.pow_succ]
  push_cast
  omega

section Positive
variable {w : Width} (pos : w.Positive)
include pos

theorem wrap?_eq_wrapped (v : Int) : w.wrap? v = some (w.wrapped v) := by
  cases w with
  | unlimited => rfl
  | bits n =>
    have hn : ¬n < 0 := by simp only [Positive] at pos; omega
    simp only [wrap?, if_neg hn, wrapped, signed_eq_bmod]

theorem holds_wrapped (v : Int) : w.Holds (w.wrapped v) := by
  cases w with
  | unlimited => trivial
  | bits n =>
    have double := two_pow_toNat pos
    have low := Int.le_bmod (x := v) (Nat.two_pow_pos n.toNat)
    have high := Int.bmod_lt (x := v) (Nat.two_pow_pos n.toNat)
    simp only [Holds, wrapped]
    omega

theorem wrapped_of_holds {v : Int} (h : w.Holds v) : w.wrapped v = v := by
  cases w with
  | unlimited => rfl
  | bits n =>
    have double := two_pow_toNat pos
    obtain ⟨low, high⟩ := h
    exact Int.bmod_eq_of_le_mul_two (by omega) (by omega)

end Positive

theorem holds_zero (w : Width) : w.Holds 0 := by
  cases w with
  | unlimited => trivial
  | bits n =>
    have half : (0 : Int) < 2 ^ (n.toNat - 1) := Int.pow_pos (by decide)
    simp only [Holds]
    omega

/-- An arithmetic shift to the right stays within the register. -/
theorem holds_shiftRight {w : Width} {v : Int} (h : w.Holds v) (k : Nat) : w.Holds (v >>> k) := by
  cases w with
  | unlimited => trivial
  | bits n =>
    obtain ⟨low, high⟩ := h
    have one : (0 : Int) < 2 ^ k := Int.pow_pos (by decide)
    have half : (0 : Int) < 2 ^ (n.toNat - 1) := Int.pow_pos (by decide)
    rw [Int.shiftRight_eq_div_pow]
    push_cast
    constructor
    · rw [Int.le_ediv_iff_mul_le one]
      have grow := Int.mul_le_mul_of_nonneg_left (c := 2 ^ (n.toNat - 1)) one (by omega)
      rw [Int.neg_mul]
      omega
    · rw [Int.ediv_lt_iff_lt_mul one]
      have grow := Int.mul_le_mul_of_nonneg_left (c := 2 ^ (n.toNat - 1)) one (by omega)
      omega

/-- Shifting all bits out of a register leaves zero. -/
theorem wrapped_mul_two_pow {n : Int} {k : Nat} (h : n ≤ k) (v : Int) :
    (Width.bits n).wrapped (v * 2 ^ k) = 0 := by
  apply Int.bmod_eq_zero_of_dvd
  push_cast
  exact Dvd.dvd.mul_left (pow_dvd_pow 2 (by omega)) v

end Width

/-! Wrapping as a map to bit vectors. -/

theorem signed_eq_toInt (n : Nat) (v : Int) : signed n v = (BitVec.ofInt n v).toInt := by
  rw [signed_eq_bmod, BitVec.toInt_ofInt]

theorem Width.wrapped_bits (n : Nat) (v : Int) : (Width.bits n).wrapped v = signed n v := by
  rw [Width.wrapped, Int.toNat_natCast, signed_eq_bmod]

theorem signed_eq_signed_iff {n : Nat} {a b : Int} :
    signed n a = signed n b ↔ BitVec.ofInt n a = BitVec.ofInt n b := by
  rw [signed_eq_toInt, signed_eq_toInt, BitVec.toInt_inj]

theorem ofInt_signed (n : Nat) (v : Int) : BitVec.ofInt n (signed n v) = BitVec.ofInt n v := by
  rw [signed_eq_toInt, BitVec.ofInt_toInt]

/-- Wrapping to a width undoes wrapping to a larger one. -/
theorem signed_wrapped {n : Nat} {w : Width} (h : (Width.bits n).le w = true) (v : Int) :
    signed n (w.wrapped v) = signed n v := by
  cases w with
  | unlimited => rfl
  | bits m =>
    have le : n ≤ m.toNat := by
      simp only [Width.le, decide_eq_true_eq] at h
      omega
    rw [signed_eq_bmod, signed_eq_bmod, Width.wrapped, Int.bmod_bmod_of_dvd]
    exact Nat.pow_dvd_pow 2 le

namespace Bits

theorem shiftLeft_eq (a : Int) (k : Nat) : shiftLeft a k = a * 2 ^ k := by
  simp only [shiftLeft]
  split
  · rename_i h
    rw [h, Int.zero_mul]
  · exact Int.shiftLeft_eq a k

theorem except_eq_ldiff (m n : Nat) : except m n = Nat.ldiff m n := by
  apply Nat.eq_of_testBit_eq
  intro i
  cases hm : m.testBit i <;> cases hn : n.testBit i <;> simp [except, Nat.testBit_ldiff, hm, hn]

theorem and_eq_land (a b : Int) : Bits.and a b = Int.land a b := by
  cases a <;> cases b <;> simp only [Bits.and, Int.land, except_eq_ldiff]

theorem or_eq_lor (a b : Int) : Bits.or a b = Int.lor a b := by
  cases a <;> cases b <;> simp only [Bits.or, Int.lor, except_eq_ldiff]

theorem xor_eq_xor (a b : Int) : Bits.xor a b = Int.xor a b := by
  cases a <;> cases b <;> rfl

theorem not_eq_lnot (a : Int) : Bits.not a = Int.lnot a := by
  cases a with
  | ofNat m => simp only [Bits.not, Int.lnot, Int.ofNat_eq_natCast]; omega
  | negSucc m => simp only [Bits.not, Int.lnot]; omega

end Bits

section Lowest
variable (n : Nat) (a b : Int)

theorem getElem_ofInt {i : Nat} (hi : i < n) : (BitVec.ofInt n a)[i] = a.testBit i := by
  have natural (m : Nat) : (BitVec.ofNat n m)[i] = m.testBit i := by
    rw [← BitVec.getLsbD_eq_getElem, BitVec.getLsbD_ofNat, decide_eq_true hi, Bool.true_and]
  cases a with
  | ofNat m => simp [Int.testBit, natural]
  | negSucc m => simp [Int.testBit, natural]

theorem ofInt_sub : BitVec.ofInt n (a - b) = BitVec.ofInt n a - BitVec.ofInt n b := by
  rw [Int.sub_eq_add_neg, BitVec.ofInt_add, BitVec.ofInt_neg, BitVec.sub_eq_add_neg]

theorem ofInt_not : BitVec.ofInt n (Bits.not a) = ~~~BitVec.ofInt n a := by
  ext i hi
  simp [getElem_ofInt, Bits.not_eq_lnot]

theorem ofInt_and : BitVec.ofInt n (Bits.and a b) = BitVec.ofInt n a &&& BitVec.ofInt n b := by
  ext i hi
  simp [getElem_ofInt, Bits.and_eq_land]

theorem ofInt_or : BitVec.ofInt n (Bits.or a b) = BitVec.ofInt n a ||| BitVec.ofInt n b := by
  ext i hi
  simp [getElem_ofInt, Bits.or_eq_lor]

theorem ofInt_xor : BitVec.ofInt n (Bits.xor a b) = BitVec.ofInt n a ^^^ BitVec.ofInt n b := by
  ext i hi
  simp [getElem_ofInt, Bits.xor_eq_xor]

end Lowest

/-- What the lowest bits of two values decide may be given wrapped values. -/
theorem signed_lift {n : Nat} {f : Int → Int → Int} {F : BitVec n → BitVec n → BitVec n}
    (lift : ∀ a b, BitVec.ofInt n (f a b) = F (BitVec.ofInt n a) (BitVec.ofInt n b)) (a b : Int) :
    signed n (f (signed n a) (signed n b)) = signed n (f a b) := by
  rw [signed_eq_signed_iff, lift, lift, ofInt_signed, ofInt_signed]

end AsmOperand
