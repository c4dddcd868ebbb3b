import AsmOperand.Definition
import AsmOperand.Hex
import AsmOperand.Proofs.Outcomes
import Mathlib.Data.Nat.Digits.Defs

/-!
# Expressions

The trees that operands are written for, what they mean, and the texts that spell them. A meaning is
computed from the leaves up in exact arithmetic; each leaf and each result is wrapped to the width.
There is no precedence in the texts either: a compound left operand needs parentheses, and what
stands on the right of an operator runs to the end.
-/

namespace AsmOperand

/-- A number as it is spelled, the highest digit first. -/
structure Literal where
  radix : Radix
  first : Nat
  others : List Nat
  first_lt : first < 10
  digits_lt : ∀ d ∈ first :: others, d < radix.base

namespace Literal

def digits (l : Literal) : List Nat := l.first :: l.others

def value (l : Literal) : Nat := Nat.ofDigits l.radix.base l.digits.reverse

end Literal

/-- The letter that marks the radix; decimal numbers have none. -/
def Radix.suffix : Radix → Text
  | .decimal => []
  | .hexadecimal => ['H']
  | .octal => ['O']
  | .binary => ['B']

def Literal.text (l : Literal) : Text := l.digits.map Hex.digit ++ l.radix.suffix

inductive Expr where
  | number (l : Literal)
  | string (chars : Text)
  | symbol (name : Text)
  /-- The location counter. -/
  | counter
  | complement (x : Expr)
  | negative (x : Expr)
  /-- The complement is an operator too; between two values it ignores the left one. -/
  | binary (lhs : Expr) (op : Operator) (rhs : Expr)

/-- What an expression comes to, apart from where its problems are shown. -/
structure Meaning where
  value : Int
  problems : List Problem
  /-- How often the location counter has been read in the end. -/
  reads : Nat

namespace Meaning

/-- An operator between two values, the left one computed first. -/
def combine (s : Settings) (op : Operator) (a b : Meaning) : Meaning :=
  match op.result s a.value b.value with
  | .ok v => ⟨s.width.wrapped v, a.problems ++ b.problems, b.reads⟩
  | .error p => ⟨0, a.problems ++ b.problems ++ [p], b.reads⟩

theorem reads_combine (s : Settings) (op : Operator) (a b : Meaning) :
    (combine s op a b).reads = b.reads := by
  simp only [combine]
  cases op.result s a.value b.value with
  | ok v => rfl
  | error p => rfl

end Meaning

/-- The meaning of an expression once the location counter has been read `k` times. -/
def Expr.meaning (env : Env) (k : Nat) : Expr → Meaning
  | .number l => ⟨env.settings.width.wrapped l.value, [], k⟩
  | .string chars =>
    ⟨env.settings.width.wrapped (Nat.ofDigits 256 (chars.map Char.toNat).reverse : Nat), [], k⟩
  | .symbol name =>
    let known := name.take env.settings.symbolSize
    match env.symbols known with
    | some v => ⟨env.settings.width.wrapped v, [], k⟩
    | none => ⟨0, [.undefinedSymbol known], k⟩
  | .counter => ⟨env.settings.width.wrapped (env.counter k), [], k + 1⟩
  | .complement x => Meaning.combine env.settings .complement ⟨0, [], k⟩ (x.meaning env k)
  | .negative x => Meaning.combine env.settings .minus ⟨0, [], k⟩ (x.meaning env k)
  | .binary lhs op rhs =>
    let a := lhs.meaning env k
    Meaning.combine env.settings op a (rhs.meaning env a.reads)

/-- Where an expression can stand: on the left of an operator, or as all of a text. -/
inductive Form where
  | operand
  | whole

/-- The text spells the expression. Every word, string and inside of a group is short enough to
count in full. -/
inductive Written (s : Settings) : Form → Expr → Text → Prop where
  | number (l : Literal) (short : l.text.length ≤ s.maxLength) :
    Written s .operand (.number l) l.text
  | string {chars : Text} (plain : ∀ c ∈ chars, c ≠ s.delimiter ∧ c ≠ '\n' ∧ c ≠ '(' ∧ c ≠ ')')
    (short : chars.length ≤ s.maxLength) :
    Written s .operand (.string chars) (s.delimiter :: chars ++ [s.delimiter])
  | symbol {name : Text} (valid : isValidName (some s.delimiter) name = true)
    (plain : ∀ c ∈ name, Text.isBlank c = false ∧ c ≠ '(' ∧ c ≠ ')')
    (short : name.length ≤ s.maxLength) :
    Written s .operand (.symbol name) name
  | counter : Written s .operand .counter Env.counterMark
  | group {x : Expr} {t : Text} (inner : Written s .whole x t) (short : t.length ≤ s.maxLength) :
    Written s .operand x ('(' :: t ++ [')'])
  | alone {x : Expr} {t before after : Text} (operand : Written s .operand x t)
    (blanks : before.isAllBlank = true) (blanks' : after.isAllBlank = true) :
    Written s .whole x (before ++ t ++ after)
  | complement {x : Expr} {t before : Text} (rhs : Written s .whole x t)
    (blanks : before.isAllBlank = true) :
    Written s .whole (.complement x) (before ++ Operator.complement.symbol :: t)
  | negative {x : Expr} {t before : Text} (rhs : Written s .whole x t)
    (blanks : before.isAllBlank = true) :
    Written s .whole (.negative x) (before ++ Operator.minus.symbol :: t)
  | binary {x y : Expr} {op : Operator} {t u before between : Text} (lhs : Written s .operand x t)
    (rhs : Written s .whole y u) (blanks : before.isAllBlank = true)
    (blanks' : between.isAllBlank = true) :
    Written s .whole (.binary x op y) (before ++ t ++ between ++ op.symbol :: u)

/-- The delimiter of strings does not look like the start of anything else or the end of a group. -/
structure Settings.Apart (s : Settings) : Prop where
  blank : Text.isBlank s.delimiter = false
  digit : Numeral.isDecimalDigit s.delimiter = false
  counter : s.delimiter ∉ Env.counterMark
  closing : s.delimiter ≠ ')'

section Holds
variable {env : Env} (pos : env.settings.width.Positive)
include pos

theorem Meaning.holds_combine (op : Operator) (a b : Meaning) :
    env.settings.width.Holds (Meaning.combine env.settings op a b).value := by
  simp only [Meaning.combine]
  cases op.result env.settings a.value b.value with
  | ok v => exact Width.holds_wrapped pos v
  | error p => exact Width.holds_zero _

theorem Expr.holds_meaning (x : Expr) (k : Nat) :
    env.settings.width.Holds (x.meaning env k).value := by
  cases x with
  | number l => exact Width.holds_wrapped pos _
  | string chars => exact Width.holds_wrapped pos _
  | symbol name =>
    simp only [Expr.meaning]
    cases env.symbols (name.take env.settings.symbolSize) with
    | some v => exact Width.holds_wrapped pos v
    | none => exact Width.holds_zero _
  | counter => exact Width.holds_wrapped pos _
  | complement x => exact Meaning.holds_combine pos _ _ _
  | negative x => exact Meaning.holds_combine pos _ _ _
  | binary lhs op rhs => exact Meaning.holds_combine pos op _ _

end Holds

end AsmOperand
