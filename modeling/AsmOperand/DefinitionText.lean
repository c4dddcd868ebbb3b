import AsmOperand.Excerpt
import AsmOperand.Text.Lines

/-!
# Definition texts

A definition text has one definition a line. A semicolon starts a comment, unless it stands
between two string delimiters; comments and the blanks around a definition are left out, and so
are lines on which nothing remains. An entry keeps its whole line and its number there.
-/

namespace AsmOperand.DefinitionText

/-- The characters before the comment, `quoted` telling whether a string is open. Without a
delimiter no string ever is. -/
def uncommented (delimiter : Option Char) (quoted : Bool) : Text → Text
  | [] => []
  | c :: rest =>
    if some c = delimiter then c :: uncommented delimiter (!quoted) rest
    else if c = ';' ∧ quoted = false then []
    else c :: uncommented delimiter quoted rest

/-- The columns of the definition on a line, if there is one. -/
def span? (delimiter : Option Char) (line : Text) : Option (Nat × Nat) :=
  let content := (uncommented delimiter false line).trimEnd
  if content.isEmpty then none
  else some ((content.takeWhile Text.isBlank).length, content.length)

/-- The lines of a text, numbered from one. -/
def numbered (path : String) (lines : List Text) : List Excerpt :=
  lines.zipIdx.map fun (line, i) => Excerpt.ofLine path (some (i + 1)) line

/-- The definition on a numbered line. -/
def definition? (delimiter : Option Char) (e : Excerpt) : Option Excerpt :=
  (span? delimiter e.line).map fun (start, stop) => e.withSpan start stop

/-- The definitions of a text, given by its lines. -/
def entries (delimiter : Option Char) (path : String) (lines : List Text) : List Excerpt :=
  (numbered path lines).filterMap (definition? delimiter)

example : span? (some '\'') "  A 1 ; one".toList = some (2, 5) := by decide

example : span? (some '\'') "A ';' ; x".toList = some (0, 5) := by decide

example : span? (some '\'') "  ; x".toList = none := by decide

end AsmOperand.DefinitionText
