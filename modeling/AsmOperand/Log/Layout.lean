import AsmOperand.Log

/-!
# How a record is shown

A record that points into a line is shown in three rows: where the line is and what is wrong with
it, the line, and a row of marks under the spans. The row has one column more than the line, for
what is missing at its end. The main span is marked `^` and drawn last, so it stays visible where
others, marked `~`, overlap it.

A span that starts before its line is counted from the end of the row, as far as the row goes; a
record with a span that lies before even that has no picture.
-/

namespace AsmOperand

namespace MarkRow

/-- The columns that a span is drawn at, `n` being the length of the line: at least one, and none
behind the row's end. -/
def drawn (n : Nat) (start stop : Int) : Int × Int :=
  let first := min start n
  (first, max (min stop (n + 1)) (first + 1))

/-- Does a span, once drawn, cover column `c` of a row of `n + 1`? -/
def covers (n : Nat) (start stop : Int) (c : Nat) : Bool :=
  let (first, last) := drawn n start stop
  let back : Int := (c : Int) - (n + 1)
  (first ≤ c && c < last) || (first ≤ back && back < last)

/-- Can the span be drawn at all? -/
def isOnRow (n : Nat) (start : Int) : Bool := -(n + 1 : Int) ≤ min start n

/-- Draws one span over a row. -/
def paint (mark : Char) (n : Nat) (row : List Char) (span : Int × Int) : List Char :=
  row.mapIdx fun c old => if covers n span.1 span.2 c then mark else old

/-- The row under a line of length `n`, without trailing blanks. -/
def ofSpans? (n : Nat) (main : Int × Int) (others : List (Int × Int)) : Option (List Char) :=
  if (main :: others).all fun span => isOnRow n span.1 then
    let below := others.foldr (fun span row => paint '~' n row span) (List.replicate (n + 1) ' ')
    some (Text.trimEnd (paint '^' n below main))
  else none

end MarkRow

namespace Record

/-- The word that a message of this level opens with. -/
def opening : Level → String
  | .error => "ERROR: "
  | .warning => "warning: "
  | .debug => ""
  | .info => ""
  | .critical => ""

def span (e : Excerpt) : Int × Int := (e.start, e.stop)

/-- The rows for a message about `main`; of the others, those on a line of the same text are
marked. -/
def picture? (message : String) (main : Excerpt) (others : List Excerpt) : Option String :=
  let header := match main.lineNumber with
    | none => s!"{main.path}: {message}"
    | some n => s!"{main.path}:{n}: {message}"
  let spans := (others.filter fun e => e.line = main.line).map span
  (MarkRow.ofSpans? main.line.length (span main) spans).map fun row =>
    let rows := [header, String.ofList main.line]
    "\n".intercalate (if row.isEmpty then rows else rows ++ [String.ofList row])

/-- A message at its place, if that can be shown. -/
def placed? (message : String) : Place → Option String
  | .nowhere => some message
  | .file path => some s!"{path}: {message}"
  | .excerpt e => picture? message e []
  | .excerpts es =>
    match es.filterMap id with
    | [] => some message
    | main :: others => picture? message main others

/-- The text of a record, if its spans can be drawn. -/
def render? : Record → Option String
  | .message level text place => placed? (opening level ++ text) place
  | .step lhs op rhs => some s!"{lhs} {op.symbol} {rhs}"

end Record

end AsmOperand
