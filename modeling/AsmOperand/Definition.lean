import AsmOperand.Ledger
import AsmOperand.Scope

/-!
# Definitions

A definition is a name, blanks, and an expression. The expression may use the names defined before
it. A definition either binds its name or leaves the scope as it is and enters one more error;
errors of the expression itself are entered before that and do not keep the name from being bound.
-/

namespace AsmOperand

/-- Can an expression refer to a symbol of this name? Such a name is not empty or the mark of the
location counter, does not start with a digit or with what opens a group or a string, and holds no
operator. -/
def isValidName (delimiter : Option Char) (name : Text) : Bool :=
  match name with
  | [] => false
  | c :: _ =>
    name ≠ Env.counterMark && !Numeral.isDecimalDigit c && c ≠ '(' && some c ≠ delimiter &&
      !name.any isOperator

/-- What is at hand while operands are evaluated and symbols are defined. -/
structure Workplace where
  scope : Scope
  desk : Desk := {}
  /-- How often the location counter was read. -/
  reads : Nat := 0

/-- The conditions of a job: its settings, its location counter, and the ledger for its errors. -/
structure Job where
  settings : Settings
  counter : Nat → Int
  ledger : Ledger.Name

abbrev Work := EStateM Fault Workplace

namespace Job

def env (j : Job) (s : Scope) : Env := ⟨j.settings, s.lookup?, j.counter⟩

/-- Evaluates an operand and enters what it brings up, also if it is broken off. -/
def evaluate (j : Job) (operand : Excerpt) : Work Int := fun w =>
  match ((j.env w.scope).evaluate operand).run { reads := w.reads } with
  | .ok v t => .ok v { w with desk := w.desk.enterAll j.ledger t.events, reads := t.reads }
  | .error f t => .error f { w with desk := w.desk.enterAll j.ledger t.events, reads := t.reads }

def error (j : Job) (p : Problem) (place : Place) : Work Unit :=
  modify fun w => { w with desk := w.desk.error j.ledger p place }

def info (message : String) (place : Place) : Work Unit :=
  modify fun w => { w with desk := w.desk.info message place }

/-- Binds a name, or enters why that is refused. A bound value is logged with all its digits (see
`AsmOperand.Problem`). -/
def bind (j : Job) (name : Text) (value : Int) (source : Excerpt) : Work Unit := do
  let w ← get
  match w.scope.define name value (some source) with
  | .error r => j.error r.problem (.excerpts (r.excerpts.map some))
  | .ok (kept, scope) => do
    set { w with scope := scope }
    info s!"{String.ofList kept} = {value}" (.excerpt source)

/-- Works through one definition. -/
def define (j : Job) (line : Excerpt) : Work Unit := do
  if line.isBackward then throw .backwardSpan
  let n := (line.text.takeWhile fun c => !Text.isBlank c).length
  let name := line.sub 0 n
  let expression := line.tail n
  if expression.text.isAllBlank then
    j.error (.missingValue name.text) (.excerpt line.endpoint)
  else if !isValidName (some j.settings.delimiter) name.text then
    j.error (.badName name.text) (.excerpt name)
  else do
    let value ← j.evaluate expression
    j.bind name.text value name

/-- Works through definitions in order. -/
def defineAll (j : Job) : List Excerpt → Work Unit
  | [] => pure ()
  | line :: rest => do
    j.define line
    j.defineAll rest

end Job

end AsmOperand
