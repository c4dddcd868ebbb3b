import AsmOperand.Command

/-!
# The words of the command line

Words that start with a dash are options, up to a word of two dashes; all others are operands. The
value of an option is the rest of its word or else the next word. One dash starts a row of
one-letter options, of which at most the last has a value.
-/

namespace AsmOperand.Command

/-- The options that have a value. -/
inductive Valued where
  | definition
  | file
  | counter
  | width
  | symbolSize
  | check
  deriving DecidableEq, Repr

namespace Valued

def ofLong? (name : String) : Option Valued :=
  match name with
  | "define" => some .definition
  | "symbols" => some .file
  | "pc" => some .counter
  | "width" => some .width
  | "symbol-size" => some .symbolSize
  | "check" => some .check
  | _ => none

def ofShort? : Char → Option Valued
  | 'D' => some .definition
  | 's' => some .file
  | _ => none

end Valued

/-- What one word is. -/
inductive Word where
  | operand
  | endOfOptions
  | nested
  /-- So many times more to say. -/
  | verbose (n : Nat)
  /-- An option with a value, if the word holds one, behind `n` requests to say more. -/
  | valued (n : Nat) (option : Valued) (value : Option Text)
  | unknown
  deriving DecidableEq, Repr

namespace Word

/-- One-letter options, `n` requests to say more having been read. -/
def ofLetters (n : Nat) : Text → Word
  | [] => .verbose n
  | 'v' :: rest => ofLetters (n + 1) rest
  | c :: rest =>
    match Valued.ofShort? c with
    | none => .unknown
    | some option => .valued n option (if rest.isEmpty then none else some rest)

def ofLongOption (t : Text) : Word :=
  let name := String.ofList (t.takeWhile (· ≠ '='))
  match Valued.ofLong? name, t.dropWhile (· ≠ '=') with
  | some option, _ :: value => .valued 0 option (some value)
  | some option, [] => .valued 0 option none
  | none, [] =>
    if name = "nested-parens" then .nested else if name = "verbose" then .verbose 1 else .unknown
  | none, _ :: _ => .unknown

def ofText : Text → Word
  | ['-', '-'] => .endOfOptions
  | '-' :: '-' :: name => ofLongOption name
  | '-' :: c :: letters => ofLetters 0 (c :: letters)
  | _ => .operand

end Word

/-- Options of which the files are known by name only. -/
structure Arguments where
  options : Options := {}
  fileNames : List String := []

namespace Arguments

def addOperand (a : Arguments) (t : Text) : Arguments :=
  { a with options := { a.options with operands := a.options.operands ++ [t] } }

def addVerbosity (a : Arguments) (n : Nat) : Arguments :=
  { a with options := { a.options with verbosity := a.options.verbosity + n } }

def setNested (a : Arguments) : Arguments :=
  { a with options := { a.options with nested := true } }

def put (a : Arguments) (option : Valued) (value : Text) : Arguments :=
  match option with
  | .definition =>
    { a with options := { a.options with definitions := a.options.definitions ++ [value] } }
  | .file => { a with fileNames := a.fileNames ++ [String.ofList value] }
  | .counter => { a with options := { a.options with counter := value } }
  | .width => { a with options := { a.options with width := value } }
  | .symbolSize => { a with options := { a.options with symbolSize := value } }
  | .check => { a with options := { a.options with check := some value } }

/-- Adds what the words say, unless one of them cannot be understood. -/
def read? (a : Arguments) : List Text → Option Arguments
  | [] => some a
  | t :: rest =>
    match Word.ofText t with
    | .operand => read? (a.addOperand t) rest
    | .endOfOptions => some (rest.foldl addOperand a)
    | .nested => read? a.setNested rest
    | .verbose n => read? (a.addVerbosity n) rest
    | .valued n option (some value) => read? ((a.addVerbosity n).put option value) rest
    | .valued n option none =>
      match rest with
      | [] => none
      | value :: rest => read? ((a.addVerbosity n).put option value) rest
    | .unknown => none

/-- The options, once the files are known. -/
def withFiles (a : Arguments) (files : List File) : Options := { a.options with files := files }

end Arguments

example : ((({} : Arguments).read? ["-vD".toList, "A=1".toList, "--pc=7".toList, "A".toList]).map
    fun a => (a.options.verbosity, a.options.counter, a.options.operands)) =
      some (1, ['7'], [['A']]) := by decide +kernel

end AsmOperand.Command
