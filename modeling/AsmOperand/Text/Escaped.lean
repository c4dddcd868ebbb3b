import AsmOperand.Text.Printable

/-!
# Escaped text

A text in quotes, on one line and without hidden characters. Single quotes are used unless the
text has one of these and no double quote. What cannot be shown is written by its code, in as few
digits as its size allows: two, four or eight.
-/

namespace AsmOperand.Text

def hexDigit (d : Nat) : Char :=
  if d < 10 then Char.ofNat ('0'.toNat + d) else Char.ofNat ('a'.toNat + (d - 10))

/-- The lowest `places` hexadecimal digits of a number. -/
def hexPlaces (places n : Nat) : Text :=
  (List.range places).reverse.map fun i => hexDigit (n / Nat.pow 16 i % 16)

/-- One character between quotes of the given kind. -/
def escapeChar (quote c : Char) : Text :=
  let n := c.toNat
  if c = quote ∨ c = '\\' then ['\\', c]
  else if c = '\n' then ['\\', 'n']
  else if c = '\r' then ['\\', 'r']
  else if c = '\t' then ['\\', 't']
  else if isPrintable c then [c]
  else if n < 0x100 then '\\' :: 'x' :: hexPlaces 2 n
  else if n < 0x10000 then '\\' :: 'u' :: hexPlaces 4 n
  else '\\' :: 'U' :: hexPlaces 8 n

def escaped (t : Text) : Text :=
  let quote := if '\'' ∈ t ∧ '"' ∉ t then '"' else '\''
  quote :: t.flatMap (escapeChar quote) ++ [quote]

example : escaped "a'b\n".toList = "\"a'b\\n\"".toList := by decide +kernel

end AsmOperand.Text
