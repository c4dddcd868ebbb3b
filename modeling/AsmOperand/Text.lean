/-!
# Text and its blanks

Operand text is a list of characters, so that a length, a column and a cut all count code points.
The blanks are the characters that separate words: the Unicode spaces, the line and paragraph
separators, and the controls that act as one of these. Nothing is said here about encodings.
-/

namespace AsmOperand

/-- Characters in reading order. -/
abbrev Text := List Char

namespace Text

/-- The characters that separate words and never belong to one. -/
def isBlank (c : Char) : Bool :=
  let n := c.toNat
  (0x09 ≤ n && n ≤ 0x0D) || (0x1C ≤ n && n ≤ 0x20) || n == 0x85 || n == 0xA0 || n == 0x1680 ||
    (0x2000 ≤ n && n ≤ 0x200A) || n == 0x2028 || n == 0x2029 || n == 0x202F || n == 0x205F ||
    n == 0x3000

theorem isBlank_space : isBlank ' ' = true := by decide

theorem isBlank_newline : isBlank '\n' = true := by decide

/-- Every space, tab, carriage return and newline is a blank. -/
theorem isBlank_of_isWhitespace {c : Char} (h : c.isWhitespace = true) : isBlank c = true := by
  simp only [Char.isWhitespace, Bool.or_eq_true, decide_eq_true_eq] at h
  rcases h with ((rfl | rfl) | rfl) | rfl <;> decide

/-- Is there nothing but blanks? -/
def isAllBlank (t : Text) : Bool := t.all isBlank

def trimStart (t : Text) : Text := t.dropWhile isBlank

def trimEnd (t : Text) : Text := (t.reverse.dropWhile isBlank).reverse

/-- The text without the blanks at its two ends. -/
def trim (t : Text) : Text := (t.trimStart).trimEnd

/-- The character of a text that has exactly one. -/
def sole? : Text → Option Char
  | [c] => some c
  | _ => none

/-- The text between double quotes, as messages cite it. -/
def quoted (t : Text) : String := "\"" ++ String.ofList t ++ "\""

end Text

end AsmOperand
