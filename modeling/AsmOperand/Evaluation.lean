import AsmOperand.Problem
import AsmOperand.Scan
import AsmOperand.Token

/-!
# Evaluation

An operand is evaluated in one pass over its scan. There is no precedence: an operator combines
the value so far with the value of everything to its right, so `10-3-2` is `10-(3-2)`. The
operators met wait in a list, each with the value on its left, and are combined from the right
once the scan ends. An operand of which a part is wrong still has a value; the problem is written
to the trace.

The trace keeps events in order and counts how often the location counter was read. Evaluation
breaks off in two cases only: the excerpt's span runs backward over characters that would have to
be cut, or a value has to be wrapped to a width below zero. The trace up to that point remains.
-/

namespace AsmOperand

/-- What an evaluation leaves behind besides its value. -/
inductive Event where
  | problem (p : Problem) (shown : Excerpt)
  /-- An operator has been applied. -/
  | combined (lhs : Int) (op : Operator) (rhs : Int)
  deriving DecidableEq, Repr

structure Trace where
  events : Array Event := #[]
  /-- How often the location counter was read. -/
  reads : Nat := 0
  deriving DecidableEq, Repr

/-- Why an evaluation has no value. -/
inductive Fault where
  | backwardSpan
  | negativeWidth
  deriving DecidableEq, Repr

abbrev Evaluation := EStateM Fault Trace

/-- What an operand is evaluated against. -/
structure Env where
  settings : Settings
  symbols : Text → Option Int
  /-- The location counter, given how often it was read before. -/
  counter : Nat → Int

namespace Evaluation

def write (e : Event) : Evaluation Unit :=
  modify fun t => { t with events := t.events.push e }

def report (p : Problem) (shown : Excerpt) : Evaluation Unit := write (.problem p shown)

end Evaluation

open Evaluation

namespace Env

def readCounter (env : Env) : Evaluation Int := do
  let t ← get
  set { t with reads := t.reads + 1 }
  return env.counter t.reads

def wrap (env : Env) (v : Int) : Evaluation Int :=
  match env.settings.width.wrap? v with
  | some v => pure v
  | none => throw .negativeWidth

/-- Reports what was too long, if anything was. -/
def reportOverlong (env : Env) : Option Excerpt → Evaluation Unit
  | none => pure ()
  | some e => report (.tooLong e.length env.settings.maxLength) e

/-- A left shift by a count that is not below zero. Bits beyond the width are lost, so a count
that reaches it leaves zero; without a limit on the width the count itself is limited. -/
def shiftLeft (env : Env) (lhs count : Int) (shown : Excerpt) : Evaluation Int :=
  match env.settings.width with
  | .unlimited =>
    if count > env.settings.shiftLimit then do
      report (.shiftTooLarge count env.settings.shiftLimit) shown
      return 0
    else env.wrap (Bits.shiftLeft lhs count.toNat)
  | .bits n => if count ≥ n then pure 0 else env.wrap (Bits.shiftLeft lhs count.toNat)

/-- The value of an operator between two values; `shown` is the operator itself. -/
def combine (env : Env) (op : Operator) (lhs rhs : Int) (shown : Excerpt) : Evaluation Int := do
  write (.combined lhs op rhs)
  match op with
  | .minus => env.wrap (lhs - rhs)
  | .plus => env.wrap (lhs + rhs)
  | .times => env.wrap (lhs * rhs)
  | .or => env.wrap (Bits.or lhs rhs)
  | .and => env.wrap (Bits.and lhs rhs)
  | .xor => env.wrap (Bits.xor lhs rhs)
  | .complement => env.wrap (Bits.not rhs)
  | .divide =>
    match quotient? lhs rhs with
    | some q => env.wrap q
    | none => do
      report .divisionByZero shown
      return 0
  | .modulo =>
    match remainder? lhs rhs with
    | some r => env.wrap r
    | none => do
      report .divisionByZero shown
      return 0
  | .shiftLeft =>
    if rhs < 0 then do
      report (.negativeShift rhs) shown
      return 0
    else env.shiftLeft lhs rhs shown
  | .shiftRight =>
    if rhs < 0 then do
      report (.negativeShift rhs) shown
      return 0
    else pure (lhs >>> rhs.toNat)

/-- The value of a name, or `value` if it has none. -/
def lookup (env : Env) (token : Excerpt) (value : Int) : Evaluation Int :=
  let name := token.text.take env.settings.symbolSize
  match env.symbols name with
  | some v => env.wrap v
  | none => do
    report (.undefinedSymbol name) token
    return value

end Env

/-- An operator that waits for the value to its right. -/
structure Pending where
  op : Operator
  lhs : Int
  shown : Excerpt
  deriving DecidableEq, Repr

namespace Env

/-- Combines the operators that wait, the last one met first. -/
def unwind (env : Env) : List Pending → Int → Evaluation Int
  | [], value => pure value
  | p :: pending, value => do
    let value ← env.combine p.op p.lhs value p.shown
    env.unwind pending value

/-- The text of the marker that stands for the location counter. -/
def counterMark : Text := ['$']

/-- The rest of one pass: `value` is the value so far, and `pending` waits. -/
def pass (env : Env) : Scan → List Pending → Int → Evaluation Int
  | .done, pending, value => env.unwind pending value
  | .unclosed opened, pending, value => do
    report .missingParenthesis opened
    env.unwind pending value
  | .group overlong body rest, pending, _ => do
    env.reportOverlong overlong
    let value ← env.pass body [] 0
    env.pass rest pending value
  | .quoted unended overlong chars rest, pending, _ => do
    match unended with
    | some e => report .missingQuote e
    | none => pure ()
    env.reportOverlong overlong
    let value ← env.wrap (Numeral.packed chars)
    env.pass rest pending value
  | .word overlong token rest, pending, value => do
    env.reportOverlong overlong
    match Token.ofText token.text with
    | .operator op => env.pass rest (⟨op, value, token⟩ :: pending) 0
    | .numeral r => do
      let value ← env.wrap (r.value token.text)
      env.pass rest pending value
    | .name => do
      let value ←
        if token.text = counterMark then do
          let here ← env.readCounter
          env.wrap here
        else env.lookup token value
      env.pass rest pending value

/-- The value of an operand. -/
def evaluate (env : Env) (operand : Excerpt) : Evaluation Int :=
  if operand.isBackward then
    if operand.text.isAllBlank then pure 0 else throw .backwardSpan
  else env.pass (operand.scan env.settings) [] 0

end Env

end AsmOperand
