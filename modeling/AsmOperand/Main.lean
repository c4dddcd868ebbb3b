import AsmOperand.Command.Arguments

/-!
# The command line

Reads the files that the arguments name, runs the command, and prints what it leaves behind:
values to standard output, the log to standard error.
-/

namespace AsmOperand.Command

/-- How the command is called. -/
def usage : String := s!"Usage: {programName} eval [OPTIONS] OPERANDS..."

/-- A file that is not there, or is a directory, cannot be named; any other has content or a
reason why it cannot be read. -/
def loadFile (name : String) : IO File := do
  try
    let bytes ← IO.FS.readBinFile name
    return ⟨name, .bytes bytes.toList⟩
  catch e =>
    match e with
    | .noFileOrDirectory _ _ _ => return ⟨name, .missing⟩
    | .inappropriateType _ _ _ => return ⟨name, .missing⟩
    | .permissionDenied _ _ reason => return ⟨name, .locked reason⟩
    | .hardwareFault _ reason => return ⟨name, .locked reason⟩
    | e => return ⟨name, .locked e.toString⟩

def refuse : IO UInt32 := do
  IO.eprintln usage
  return 2

/-- Runs the command with the words that follow its name. -/
def execute (words : List String) : IO UInt32 := do
  match ({} : Arguments).read? (words.map String.toList) with
  | none => refuse
  | some arguments =>
    let files ← arguments.fileNames.mapM loadFile
    match (arguments.withFiles files).request? with
    | none => refuse
    | some request =>
      let outcome := request.run
      for line in outcome.output do IO.println line
      for line in request.shown outcome do IO.eprintln line
      match outcome.result with
      | .ok code => return UInt32.ofNat code
      | .error .spoiledFile =>
        IO.eprintln "a symbol file is not UTF-8"
        return 1
      | .error (.fault _) => return 1

end AsmOperand.Command

def main (words : List String) : IO UInt32 := do
  match words with
  | "eval" :: rest => AsmOperand.Command.execute rest
  | _ => AsmOperand.Command.refuse
