import AsmOperand.Operator
import AsmOperand.Text
import AsmOperand.Width

/-!
# Settings

What the surrounding assembler decides about its operands. A value of `Settings` is valid by
construction: sizes are above zero, and the string delimiter is a character that opens nothing
else. The width may be any. `ofFields` builds settings from unchecked values and names the first
that is refused.
-/

namespace AsmOperand

structure Settings where
  /-- Names count up to this many characters. -/
  symbolSize : Nat
  /-- A word, a group or a string counts up to this many characters. -/
  maxLength : Nat
  /-- Opens and closes a string. -/
  delimiter : Char
  width : Width
  /-- Is a group closed by its own parenthesis, and not by the first one? -/
  nested : Bool
  symbolSize_pos : 0 < symbolSize
  maxLength_pos : 0 < maxLength
  delimiter_ne : delimiter ≠ '('
  delimiter_free : isOperator delimiter = false
  deriving DecidableEq, Repr

namespace Settings

/-- The largest left shift without a limit on the width: the bits of the longest string. -/
def shiftLimit (s : Settings) : Nat := s.maxLength * 8

def defaultSymbolSize : Nat := 8

def defaultMaxLength : Nat := 128

def defaultDelimiter : Char := '\''

def defaultWidth : Width := .bits 32

/-- The settings that hold where nothing else is asked for. -/
def default : Settings where
  symbolSize := defaultSymbolSize
  maxLength := defaultMaxLength
  delimiter := defaultDelimiter
  width := defaultWidth
  nested := false
  symbolSize_pos := by decide
  maxLength_pos := by decide
  delimiter_ne := by decide
  delimiter_free := by decide

/-- Why values make no settings. -/
inductive FieldError where
  | symbolSize (n : Int)
  | maxLength (n : Int)
  | delimiterLength (t : Text)
  | delimiterClash (c : Char)
  deriving DecidableEq, Repr

def FieldError.message : FieldError → String
  | .symbolSize n => s!"symbol size must be positive, got {n}"
  | .maxLength n => s!"maximum token length must be positive, got {n}"
  | .delimiterLength t => s!"string delimiter must be a single character, got {t.quoted}"
  | .delimiterClash c => s!"string delimiter {Text.quoted [c]} conflicts with expression syntax"

/-- Settings with these values, checked in this order. -/
def ofFields (symbolSize maxLength : Int) (delimiter : Text) (width : Width) (nested : Bool) :
    Except FieldError Settings :=
  if hs : symbolSize ≤ 0 then .error (.symbolSize symbolSize)
  else if hm : maxLength ≤ 0 then .error (.maxLength maxLength)
  else
    match delimiter.sole? with
    | none => .error (.delimiterLength delimiter)
    | some c =>
      if hc : c = '(' ∨ isOperator c = true then .error (.delimiterClash c)
      else
        .ok {
          symbolSize := symbolSize.toNat
          maxLength := maxLength.toNat
          delimiter := c
          width := width
          nested := nested
          symbolSize_pos := by omega
          maxLength_pos := by omega
          delimiter_ne := fun h => hc (.inl h)
          delimiter_free := by
            cases h : isOperator c with
            | false => rfl
            | true => exact absurd (.inr h) hc }

/-- Settings as a client asks for them: what is left out has its default. -/
structure Request where
  symbolSize : Int := defaultSymbolSize
  maxLength : Int := defaultMaxLength
  delimiter : Text := [defaultDelimiter]
  width : Width := defaultWidth
  nested : Bool := false

def Request.settings (r : Request) : Except FieldError Settings :=
  ofFields r.symbolSize r.maxLength r.delimiter r.width r.nested

example : ({} : Request).settings = .ok default := rfl

end Settings

end AsmOperand
