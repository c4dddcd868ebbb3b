import AsmOperand.Text
import AsmOperand.Width

/-!
# Hexadecimal literals

A value is written so that an operand can hold it: capital digits, an `H` at the end, and a digit
below ten in front, with a zero for it if need be. A bounded width shows the bits of the value,
all of them; without a limit there is a sign instead.
-/

namespace AsmOperand.Hex

/-- The digit for a value below sixteen. -/
def digit (d : Nat) : Char :=
  if d < 10 then Char.ofNat ('0'.toNat + d) else Char.ofNat ('A'.toNat + (d - 10))

/-- The digits of a number, the last one first; zero has none. -/
def reversedDigits (n : Nat) : Text :=
  if h : n = 0 then [] else digit (n % 16) :: reversedDigits (n / 16)
decreasing_by omega

/-- The digits of a number, with zeros in front up to `places`, and at least one digit. -/
def digits (places n : Nat) : Text :=
  let short := (reversedDigits n).reverse
  List.replicate (max places 1 - short.length) '0' ++ short

/-- Puts a zero before a letter. -/
def guardLetter : Text → Text
  | [] => []
  | c :: rest => if c.isDigit then c :: rest else '0' :: c :: rest

/-- The literal for a value of this width; a width below zero has none. -/
def literal? (w : Width) (v : Int) : Option Text :=
  match w with
  | .unlimited =>
    some ((if v < 0 then ['-'] else []) ++ guardLetter (digits 0 v.natAbs) ++ ['H'])
  | .bits n =>
    if n < 0 then none
    else some (guardLetter (digits ((n.toNat + 3) / 4) (v % Nat.pow 2 n.toNat).toNat) ++ ['H'])

example : literal? .unlimited (-255) = some "-0FFH".toList := by decide +kernel

example : literal? (.bits 8) (-1) = some "0FFH".toList ∧
    literal? (.bits 9) 5 = some "005H".toList := by decide +kernel

end AsmOperand.Hex
