import AsmOperand.Text

/-!
# Assignments

A definition on the command line is a name, an equals sign, and an expression, which may hold
further equals signs. Blanks around the name do not count, those of the expression do.
-/

namespace AsmOperand

structure Assignment where
  name : Text
  expression : Text
  deriving DecidableEq, Repr

namespace Assignment

def ofText? (t : Text) : Option Assignment :=
  let name := Text.trim (t.takeWhile (· ≠ '='))
  match t.dropWhile (· ≠ '=') with
  | [] => none
  | _ :: expression => if name.isEmpty then none else some ⟨name, expression⟩

/-- The message about a text that is no assignment. -/
def refusal (t : Text) : String := s!"expected NAME=EXPR, got {t.quoted}"

/-- The form of an assignment, as usage messages show it. -/
def form : String := "NAME=EXPR"

/-- The assignment as a line of a definition text. -/
def line (a : Assignment) : Text := a.name ++ ' ' :: a.expression

example : ofText? " A =1=2".toList = some ⟨['A'], "1=2".toList⟩ := by decide

end Assignment

end AsmOperand
