/-!
# Bitwise operations on integers

An integer is read as its two's complement bits, continued to the left without end: by zeros from
some place on if it is at least zero, by ones otherwise. What combines bits is computed on natural
numbers, case by case in the signs, with `¬ m` written as `-m - 1`. Moving bits up multiplies by a
power of two; for zero that power is not formed, so the distance may be of any size.
-/

namespace AsmOperand.Bits

/-- The bits of `m` that are not bits of `n`. -/
def except (m n : Nat) : Nat := m ^^^ (m &&& n)

def and : Int → Int → Int
  | .ofNat m, .ofNat n => (m &&& n : Nat)
  | .ofNat m, .negSucc n => (except m n : Nat)
  | .negSucc m, .ofNat n => (except n m : Nat)
  | .negSucc m, .negSucc n => .negSucc (m ||| n)

def or : Int → Int → Int
  | .ofNat m, .ofNat n => (m ||| n : Nat)
  | .ofNat m, .negSucc n => .negSucc (except n m)
  | .negSucc m, .ofNat n => .negSucc (except m n)
  | .negSucc m, .negSucc n => .negSucc (m &&& n)

def xor : Int → Int → Int
  | .ofNat m, .ofNat n => (m ^^^ n : Nat)
  | .ofNat m, .negSucc n => .negSucc (m ^^^ n)
  | .negSucc m, .ofNat n => .negSucc (m ^^^ n)
  | .negSucc m, .negSucc n => (m ^^^ n : Nat)

def not (a : Int) : Int := -a - 1

/-- All bits moved `k` places up. -/
def shiftLeft (a : Int) (k : Nat) : Int := if a = 0 then 0 else a <<< k

theorem not_not (a : Int) : not (not a) = a := by
  simp only [not]
  omega

example : and (-6) 12 = 8 ∧ or (-6) 12 = -2 ∧ xor (-6) 12 = -10 ∧ not 5 = -6 := by decide

end AsmOperand.Bits
