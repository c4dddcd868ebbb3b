import AsmOperand.Text.Slice

/-!
# Excerpts

An excerpt is a span of columns on a line of some file. It is what a diagnostic points at, so it
keeps the whole line and not only the spanned text. The columns are any two integers: `text` reads
them as `Text.slice` does, and `length` is their distance.

Cutting is relative to the excerpt. `sub` takes two columns that lie in it; `slice?` and `at?`
take signed ones and say why they fail. That a cut of an excerpt spells the same cut of its text
is not stated here.
-/

namespace AsmOperand

structure Excerpt where
  path : String
  /-- The line's number, counted from one, if it has one. -/
  lineNumber : Option Int
  line : Text
  start : Int
  stop : Int
  deriving DecidableEq, Repr

namespace Excerpt

/-- A whole line. -/
def ofLine (path : String) (lineNumber : Option Int) (line : Text) : Excerpt :=
  ⟨path, lineNumber, line, 0, line.length⟩

/-- The file name of text that comes from no file. -/
def loosePath : String := "<string>"

/-- A text that stands by itself. -/
def ofText (t : Text) : Excerpt := ofLine loosePath none t

/-- The spanned characters. -/
def text (e : Excerpt) : Text := e.line.slice e.start e.stop

def length (e : Excerpt) : Int := e.stop - e.start

/-- Does the span end before it starts? -/
def isBackward (e : Excerpt) : Bool := e.stop < e.start

/-- A span that lies on its line, from left to right. -/
def WellFormed (e : Excerpt) : Prop :=
  0 ≤ e.start ∧ e.start ≤ e.stop ∧ e.stop ≤ e.line.length

instance (e : Excerpt) : Decidable e.WellFormed := by
  unfold WellFormed
  infer_instance

/-- Another span of the same line. -/
def withSpan (e : Excerpt) (start stop : Int) : Excerpt := { e with start := start, stop := stop }

/-- The place just behind the span. -/
def endpoint (e : Excerpt) : Excerpt := e.withSpan e.stop e.stop

/-- The part from column `a` up to column `b`, both counted from the excerpt's start. -/
def sub (e : Excerpt) (a b : Nat) : Excerpt :=
  e.withSpan (e.start + a) (e.start + max a b)

/-- The part from column `a` on. -/
def tail (e : Excerpt) (a : Nat) : Excerpt := e.sub a e.length.toNat

/-- Why an excerpt cannot be cut in a given way. -/
inductive CutError where
  | backward
  | zeroStep
  | longStep
  | outOfRange (i length : Int)
  deriving DecidableEq, Repr

/-- The message, where the reason has one. -/
def CutError.message? : CutError → Option String
  | .backward => none
  | .zeroStep => none
  | .longStep => some "step sizes other than 1 are not supported"
  | .outOfRange i length => some s!"index {i} out of range for length {length}"

/-- The excerpt of one character; a column below zero counts from the end. -/
def at? (e : Excerpt) (i : Int) : Except CutError Excerpt :=
  let k := if i < 0 then i + e.length else i
  if 0 ≤ k ∧ k < e.length then .ok (e.sub k.toNat (k.toNat + 1))
  else .error (.outOfRange i e.length)

/-- A step other than one is refused. -/
def checkStep : Option Int → Except CutError Unit
  | none => .ok ()
  | some k => if k = 0 then .error .zeroStep else if k = 1 then .ok () else .error .longStep

/-- The part between two signed columns, each moved into the excerpt; a missing one is its edge.
-/
def slice? (e : Excerpt) (a b step : Option Int) : Except CutError Excerpt := do
  if e.isBackward then throw .backward
  checkStep step
  let n := e.length.toNat
  return e.sub ((a.map (Text.column n)).getD 0) ((b.map (Text.column n)).getD n)

/-- The number of characters between the two columns, where they are in order. -/
def size? (e : Excerpt) : Except CutError Int :=
  if e.isBackward then .error .backward else .ok e.length

theorem length_sub (e : Excerpt) (a b : Nat) : (e.sub a b).length = (b - a : Nat) := by
  simp only [length, sub, withSpan]
  omega

/-- What is cut out between two columns has no more characters than lie between them. -/
theorem length_text_sub_le (e : Excerpt) (a b : Nat) : (e.sub a b).text.length ≤ b - a := by
  have h := Text.length_slice_le e.line (a := (e.sub a b).start) (b := (e.sub a b).stop)
    (by simp only [sub, withSpan]; omega)
  simp only [text, sub, withSpan] at h ⊢
  omega

/-- An excerpt whose span runs from left to right has no more characters than columns. -/
theorem length_text_le (e : Excerpt) (h : e.isBackward = false) :
    (e.text.length : Int) ≤ e.length := by
  have h' : e.start ≤ e.stop := by simpa [isBackward] using h
  have := Text.length_slice_le e.line h'
  simp only [text, length]
  omega

end Excerpt

end AsmOperand
