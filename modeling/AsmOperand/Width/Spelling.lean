import AsmOperand.Numeral.Integer
import AsmOperand.Width

/-!
# Widths as text

A width is typed as a number above zero or as the word `unlimited` in capitals, small letters or
both.
-/

namespace AsmOperand.Width

/-- Why a text is no width. -/
inductive SpellingError where
  | notANumber
  | notPositive (n : Int)
  deriving DecidableEq, Repr

/-- The message, where the reason has one. -/
def SpellingError.message? : SpellingError → Option String
  | .notANumber => none
  | .notPositive n => some s!"width must be positive, got {n}"

/-- The word that stands for no limit. -/
def unlimitedWord : String := "unlimited"

/-- The form of a width, as usage messages show it. -/
def form : String := "BITS|unlimited"

def ofText (t : Text) : Except SpellingError Width :=
  if t.map Char.toLower = unlimitedWord.toList then .ok .unlimited
  else
    match Numeral.typedInt? t with
    | none => .error .notANumber
    | some n => if n ≤ 0 then .error (.notPositive n) else .ok (.bits n)

/-- A width that was read leaves room for a value. -/
theorem positive_of_ofText {t : Text} {w : Width} (h : ofText t = .ok w) : w.Positive := by
  unfold ofText at h
  split at h
  · cases h
    trivial
  · split at h
    · cases h
    · split at h
      · cases h
      · cases h
        simp only [Positive]
        omega

end AsmOperand.Width
