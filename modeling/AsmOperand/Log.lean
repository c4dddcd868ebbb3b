import AsmOperand.Excerpt
import AsmOperand.Operator

/-!
# Log records

A record is a message with a level and, often, a place, or one step of an evaluation. A step keeps
its two values as they are, so that writing them out is left to whoever shows the record. How
records look is decided in `AsmOperand.Log.Layout`.
-/

namespace AsmOperand

inductive Level where
  | debug
  | info
  | warning
  | error
  | critical
  deriving DecidableEq, Repr

/-- What a message is about. -/
inductive Place where
  | nowhere
  | file (path : String)
  | excerpt (e : Excerpt)
  /-- Several excerpts, the main one first; some may be missing. -/
  | excerpts (es : List (Option Excerpt))
  deriving DecidableEq, Repr

/-- The place of an excerpt that may be missing. -/
def Place.ofSource : Option Excerpt → Place
  | none => .nowhere
  | some e => .excerpt e

/-- The excerpt to keep with a problem at this place. Of several, only the first counts. -/
def Place.main? : Place → Option Excerpt
  | .nowhere => none
  | .file _ => none
  | .excerpt e => some e
  | .excerpts es => es.head?.join

inductive Record where
  | message (level : Level) (text : String) (place : Place)
  /-- An operator has been applied. -/
  | step (lhs : Int) (op : Operator) (rhs : Int)
  deriving DecidableEq, Repr

def Record.level : Record → Level
  | .message level _ _ => level
  | .step _ _ _ => .debug

/-- Levels by rising severity. -/
def Level.rank : Level → Nat
  | .debug => 0
  | .info => 1
  | .warning => 2
  | .error => 3
  | .critical => 4

end AsmOperand
