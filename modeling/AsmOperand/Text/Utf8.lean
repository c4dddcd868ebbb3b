import AsmOperand.Text.Lines

/-!
# Files of text

A file holds characters in UTF-8. Only the shortest form of a character is taken, and no
surrogates; the first byte that cannot continue what came before it spoils the file. A file is
read in blocks. The lines that end in blocks before the spoiled one are read all the same.
-/

namespace AsmOperand.Utf8

/-- A character of which bytes are missing: the bits so far, the number of missing bytes, and the
range of the next one. -/
structure Partial where
  bits : Nat
  missing : Nat
  low : Nat
  high : Nat
  deriving DecidableEq, Repr

inductive Step where
  | char (c : Char)
  | more (p : Partial)
  | bad
  deriving DecidableEq, Repr

/-- The first byte of a character. -/
def start (b : Nat) : Step :=
  if b < 0x80 then .char (Char.ofNat b)
  else if b < 0xC2 then .bad
  else if b < 0xE0 then .more ⟨b - 0xC0, 1, 0x80, 0xBF⟩
  else if b = 0xE0 then .more ⟨0, 2, 0xA0, 0xBF⟩
  else if b = 0xED then .more ⟨0xD, 2, 0x80, 0x9F⟩
  else if b < 0xF0 then .more ⟨b - 0xE0, 2, 0x80, 0xBF⟩
  else if b = 0xF0 then .more ⟨0, 3, 0x90, 0xBF⟩
  else if b < 0xF4 then .more ⟨b - 0xF0, 3, 0x80, 0xBF⟩
  else if b = 0xF4 then .more ⟨4, 3, 0x80, 0x8F⟩
  else .bad

/-- A later byte of a character. -/
def Partial.next (p : Partial) (b : Nat) : Step :=
  if p.low ≤ b ∧ b ≤ p.high then
    let bits := p.bits * 64 + (b - 0x80)
    if p.missing ≤ 1 then .char (Char.ofNat bits) else .more ⟨bits, p.missing - 1, 0x80, 0xBF⟩
  else .bad

def step (p : Option Partial) (b : Nat) : Step :=
  match p with
  | none => start b
  | some p => p.next b

/-- The characters that a block completes, and the one that it leaves open. -/
def block? (p : Option Partial) : List UInt8 → Option (Text × Option Partial)
  | [] => some ([], p)
  | b :: rest =>
    match step p b.toNat with
    | .bad => none
    | .more p => block? (some p) rest
    | .char c => (block? none rest).map fun (t, p) => (c :: t, p)

/-- What could be read: all of it, or only a beginning. -/
structure Reading where
  text : Text
  isWhole : Bool
  deriving DecidableEq, Repr

def blocks (p : Option Partial) : List (List UInt8) → Reading
  | [] => ⟨[], p.isNone⟩
  | b :: rest =>
    match block? p b with
    | none => ⟨[], false⟩
    | some (t, p) =>
      let r := blocks p rest
      ⟨t ++ r.text, r.isWhole⟩

/-- Cuts bytes into blocks of `n + 1`. -/
def cutBlocks (n : Nat) (bytes : List UInt8) : List (List UInt8) :=
  if bytes.isEmpty then [] else bytes.take (n + 1) :: cutBlocks n (bytes.drop (n + 1))
termination_by bytes.length
decreasing_by
  rename_i h
  have : bytes ≠ [] := by simpa using h
  have := List.length_pos_iff.2 this
  simp only [List.length_drop]
  omega

/-- The size of the blocks that files are read in. -/
def blockSize : Nat := 8192

def read (bytes : List UInt8) : Reading := blocks none (cutBlocks (blockSize - 1) bytes)

/-- The lines that could be read. -/
def Reading.lines (r : Reading) : List Text :=
  if r.isWhole then r.text.uniformEnds.lines else r.text.completeLines

example : block? none [0x41, 0xC3, 0xA9] = some (['A', 'é'], none) := by decide

example : block? none [0xC0, 0x80] = none ∧ block? none [0xED, 0xA0] = none := by decide

example : blocks none [[0x41, 0xE2], [0x82, 0xAC]] = ⟨['A', '€'], true⟩ := by decide

example : blocks none [[0x41, 0xE2]] = ⟨['A'], false⟩ := by decide

end AsmOperand.Utf8
