import AsmOperand.Text.Digit

/-!
# Integers as a user types them

Blanks may stand around the number, one sign directly before it, and single underscores between
its digits; the digits may be of any script. Of the blanks, the four separator controls U+001C to
U+001F are not among those that may stand around it. A number of more than `maxDigits` digits is
refused, leading zeros included.
-/

namespace AsmOperand.Numeral

/-- The blanks that may surround a typed number. -/
def isPadding (c : Char) : Bool :=
  Text.isBlank c && !(0x1C ≤ c.toNat && c.toNat ≤ 0x1F)

/-- Digits with single underscores between them, continuing the number `n`; a digit has just been
read. -/
def digitsFrom? (n : Nat) : Text → Option Nat
  | [] => some n
  | '_' :: c :: rest =>
    match Text.decimalDigit? c with
    | some d => digitsFrom? (n * 10 + d) rest
    | none => none
  | c :: rest =>
    match Text.decimalDigit? c with
    | some d => digitsFrom? (n * 10 + d) rest
    | none => none

/-- The most digits that a typed number may have. -/
def maxDigits : Nat := 4300

/-- How many characters there are besides underscores. -/
def digitCount (t : Text) : Nat := t.countP (· ≠ '_')

/-- A run of digits that is neither empty nor too long. -/
def typedNat? : Text → Option Nat
  | [] => none
  | c :: rest =>
    if digitCount (c :: rest) > maxDigits then none
    else
      match Text.decimalDigit? c with
      | some d => digitsFrom? d rest
      | none => none

/-- The integer that the whole text spells. -/
def typedInt? (t : Text) : Option Int :=
  let body := ((t.dropWhile isPadding).reverse.dropWhile isPadding).reverse
  match body with
  | '-' :: rest => (typedNat? rest).map fun n => -(n : Int)
  | '+' :: rest => (typedNat? rest).map Int.ofNat
  | rest => (typedNat? rest).map Int.ofNat

example : typedInt? " -1_000\n".toList = some (-1000) := by decide

example : typedInt? "1__0".toList = none ∧ typedInt? "_1".toList = none ∧
    typedInt? "1_".toList = none ∧ typedInt? "+ 1".toList = none := by decide

end AsmOperand.Numeral
