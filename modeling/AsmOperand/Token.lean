import AsmOperand.Numeral
import AsmOperand.Operator

/-!
# Kinds of words

The first character of a word tells numerals, operators and names apart, and the last one gives a
numeral its radix. A word that starts with a digit and ends in something else is a name, although
no such name can be defined.
-/

namespace AsmOperand

inductive Token where
  | numeral (r : Radix)
  | operator (op : Operator)
  | name
  deriving DecidableEq, Repr

/-- The radix that a numeral's last character selects. -/
def Radix.ofLast? (c : Char) : Option Radix :=
  if Numeral.isDecimalDigit c then some .decimal
  else if c = 'H' then some .hexadecimal
  else if c = 'B' then some .binary
  else if c = 'O' then some .octal
  else none

namespace Token

def ofText : Text → Token
  | [] => .name
  | c :: rest =>
    if Numeral.isDecimalDigit c then
      match Radix.ofLast? (rest.getLastD c) with
      | some r => .numeral r
      | none => .name
    else
      match Operator.ofChar? c with
      | some op => .operator op
      | none => .name

/-- The first character alone makes a word an operator. -/
theorem ofText_cons_eq_operator_iff {c : Char} {rest : Text} {op : Operator} :
    ofText (c :: rest) = .operator op ↔ op.symbol = c := by
  constructor
  · intro h
    simp only [ofText] at h
    split at h
    · split at h
      · cases h
      · cases h
    · split at h
      · rename_i known
        cases h
        exact Operator.symbol_of_ofChar? known
      · cases h
  · rintro rfl
    cases op <;> rfl

/-- The character of an operator; numerals and names have none. -/
def symbol? : Token → Option Char
  | .operator op => some op.symbol
  | _ => none

example : ofText "0FFH".toList = .numeral .hexadecimal ∧ ofText "12B".toList = .numeral .binary ∧
    ofText "12X".toList = .name ∧ ofText "-12".toList = .operator .minus := by decide

end Token

end AsmOperand
