import AsmOperand.ByteRange
import AsmOperand.Command.Assignment
import AsmOperand.Counter
import AsmOperand.Definition
import AsmOperand.DefinitionText
import AsmOperand.Hex
import AsmOperand.Log.Layout
import AsmOperand.Numeral.Integer
import AsmOperand.Text.Utf8
import AsmOperand.Width.Spelling

/-!
# The command

The command reads symbol files, defines the symbols given as options, evaluates the location
counter, and then prints the value of each operand in decimal and hexadecimal. If anything is
wrong before the first operand, no operand is evaluated. The exit code is zero if no error was
entered, one if some were, and two for options that cannot be used.

What a file holds is part of the request; opening files is left to the caller. A file that is not
UTF-8 breaks the command off at the block that shows it.
-/

namespace AsmOperand.Command

/-- The name of the program, under which it also logs the counts of errors and warnings. -/
def programName : String := "asmexpr"

inductive Content where
  | missing
  /-- The file is there and cannot be opened. -/
  | locked (reason : String)
  | bytes (bs : List UInt8)
  deriving Repr

structure File where
  name : String
  content : Content
  deriving Repr

def defaultCounter : Text := ['0']

def defaultWidth : Text := ['3', '2']

def defaultSymbolSize : Text := ['8']

/-- The options and operands as they are typed. -/
structure Options where
  definitions : List Text := []
  files : List File := []
  counter : Text := defaultCounter
  width : Text := defaultWidth
  symbolSize : Text := defaultSymbolSize
  check : Option Text := none
  nested : Bool := false
  verbosity : Nat := 0
  operands : List Text := []

/-- What the options ask for. -/
structure Request where
  definitions : List Assignment
  files : List File
  counter : Text
  settings : Settings
  check : Option ByteRange
  threshold : Level
  operands : List Text

/-- The checks that can be asked for. -/
def rangeOfText? (t : Text) : Option ByteRange :=
  if t = "byte".toList then some .eitherSign
  else if t = "sbyte".toList then some .signed
  else none

def sizeOfText? (t : Text) : Option Int :=
  (Numeral.typedInt? t).filter fun n => 1 ≤ n

/-- The least level that is shown. -/
def threshold : Nat → Level
  | 0 => .warning
  | 1 => .info
  | _ => .debug

def File.isMissing (f : File) : Bool :=
  match f.content with
  | .missing => true
  | .locked _ => false
  | .bytes _ => false

/-- The request, if all options can be used. -/
def Options.request? (o : Options) : Option Request := do
  let definitions ← o.definitions.mapM Assignment.ofText?
  let width ← (Width.ofText o.width).toOption
  let symbolSize ← sizeOfText? o.symbolSize
  let settings ← (Settings.ofFields symbolSize Settings.defaultMaxLength
    [Settings.defaultDelimiter] width o.nested).toOption
  let check ← match o.check with
    | none => some none
    | some t => (rangeOfText? t).map some
  if o.files.any File.isMissing || o.operands.isEmpty then none
  else some ⟨definitions, o.files, o.counter, settings, check, threshold o.verbosity, o.operands⟩

/-- Why the command breaks off. -/
inductive Crash where
  | spoiledFile
  | fault (f : Fault)
  deriving DecidableEq, Repr

abbrev Run := EStateM Crash Workplace

/-- Work as part of a run. -/
def lift {α : Type} (work : Work α) : Run α := fun w =>
  match work.run w with
  | .ok a w => .ok a w
  | .error f w => .error (.fault f) w

namespace Request

/-- The job of evaluating with a fixed location counter. -/
def job (r : Request) (counter : Int) : Job :=
  ⟨r.settings, (Counter.fixed counter).reading, .a⟩

/-- Defines the symbols of a file. -/
def readFile (r : Request) (f : File) : Run Unit := do
  match f.content with
  | .missing => pure ()
  | .locked reason => lift ((r.job 0).error (.unreadable reason) (.file f.name))
  | .bytes bs =>
    let reading := Utf8.read bs
    let entries := DefinitionText.entries (some r.settings.delimiter) f.name reading.lines
    lift ((r.job 0).defineAll entries)
    if !reading.isWhole then throw .spoiledFile

def readFiles (r : Request) : List File → Run Unit
  | [] => pure ()
  | f :: rest => do
    r.readFile f
    r.readFiles rest

/-- The definitions as lines, each under its number. -/
def definitionLines (r : Request) : List Excerpt :=
  r.definitions.zipIdx.map fun (a, i) => Excerpt.ofLine s!"<define {i + 1}>" none a.line

/-- All that comes before the operands; the result is the location counter. -/
def prepare (r : Request) : Run Int := do
  r.readFiles r.files
  lift ((r.job 0).defineAll r.definitionLines)
  lift ((r.job 0).evaluate (Excerpt.ofLine "<pc>" none r.counter))

/-- The value to print for an operand. -/
def operandValue (r : Request) (counter : Int) (operand : Excerpt) : Work Int := do
  let j := r.job counter
  let value ← j.evaluate operand
  match r.check with
  | none => return value
  | some range =>
    let (value, problem) := range.check value
    match problem with
    | none => return value
    | some p => do
      j.error p (.excerpt operand)
      return value

/-- The line for an operand, with all digits of its value (see `AsmOperand.Problem`). -/
def printed (r : Request) (value : Int) : Option String :=
  (Hex.literal? r.settings.width value).map fun hex => s!"{value}\t{String.ofList hex}"

/-- The lines for the operands from number `i` on. -/
def printAll (r : Request) (counter : Int) (i : Nat) : List Text → Run (List String)
  | [] => pure []
  | operand :: rest => do
    let value ← lift (r.operandValue counter (Excerpt.ofLine s!"<operand {i}>" none operand))
    match r.printed value with
    | none => throw (.fault .negativeWidth)
    | some line => do
      let lines ← r.printAll counter (i + 1) rest
      return line :: lines

/-- What the command leaves behind: an exit code, or the reason why it broke off, and its lines of
output and the log. -/
structure Outcome where
  result : Except Crash Nat
  output : List String
  log : List Record

/-- Runs the command. -/
def run (r : Request) : Outcome :=
  let start : Workplace := { scope := ⟨⟨r.settings.symbolSize, []⟩, [], []⟩ }
  match r.prepare.run start with
  | .error e w => ⟨.error e, [], w.desk.log.toList⟩
  | .ok counter w =>
    if w.desk.a.tally.errors > 0 then ⟨.ok 1, [], w.desk.log.toList⟩
    else
      match (r.printAll counter 1 r.operands).run w with
      | .error e w => ⟨.error e, [], w.desk.log.toList⟩
      | .ok lines w =>
        if w.desk.a.tally.errors > 0 then
          ⟨.ok 1, lines, (w.desk.summarize .a programName).log.toList⟩
        else ⟨.ok 0, lines, w.desk.log.toList⟩

/-- The lines of the log that are shown. -/
def shown (r : Request) (o : Outcome) : List String :=
  (o.log.filter fun record => r.threshold.rank ≤ record.level.rank).filterMap Record.render?

end Request

end AsmOperand.Command
