import AsmOperand.Text

/-!
# Numerals and packed characters

A numeral is read from the left for as long as its characters are digits of its radix; what
follows does not count. Only capital letters are digits above nine. A string packs its characters
into one number, eight bits to a place, the first character highest.
-/

namespace AsmOperand

/-- The bases that a numeral can be written in. -/
inductive Radix where
  | decimal
  | hexadecimal
  | octal
  | binary
  deriving DecidableEq, Repr

namespace Radix

def base : Radix → Nat
  | .decimal => 10
  | .hexadecimal => 16
  | .octal => 8
  | .binary => 2

end Radix

namespace Numeral

/-- The value of one of the sixteen digits `0`–`9`, `A`–`F`. -/
def digit? (c : Char) : Option Nat :=
  if '0' ≤ c ∧ c ≤ '9' then some (c.toNat - '0'.toNat)
  else if 'A' ≤ c ∧ c ≤ 'F' then some (c.toNat - 'A'.toNat + 10)
  else none

def isDigitOf (base : Nat) (c : Char) : Bool :=
  match digit? c with
  | some d => d < base
  | none => false

/-- The decimal digits `0`–`9`. -/
def isDecimalDigit (c : Char) : Bool := '0' ≤ c && c ≤ '9'

/-- The number that a run of digits stands for. -/
def positional (base : Nat) (digits : Text) : Nat :=
  digits.foldl (fun n c => n * base + (digit? c).getD 0) 0

/-- The number that the leading digits stand for, zero if there are none. -/
def leading (base : Nat) (t : Text) : Nat :=
  positional base (t.takeWhile (isDigitOf base))

/-- Decimal digits behind blanks and at most one sign. -/
def signedDecimal (t : Text) : Int :=
  match t.trimStart with
  | '-' :: rest => -(leading 10 rest : Int)
  | '+' :: rest => leading 10 rest
  | rest => leading 10 rest

/-- The characters' codes in base 256; a code above 255 carries into the place before it. -/
def packed (t : Text) : Nat :=
  t.foldl (fun n c => n * 256 + c.toNat) 0

example : leading 16 "1FzH".toList = 31 ∧ leading 8 "789".toList = 7 := by decide

example : signedDecimal " -12x".toList = -12 ∧ signedDecimal "--1".toList = 0 := by decide

example : packed "AB".toList = 0x4142 := by decide

end Numeral

/-- The value of a numeral in this radix. -/
def Radix.value (r : Radix) (t : Text) : Int :=
  match r with
  | .decimal => Numeral.signedDecimal t
  | r => Numeral.leading r.base t

end AsmOperand
