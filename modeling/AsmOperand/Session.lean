import AsmOperand.ByteRange
import AsmOperand.Counter
import AsmOperand.Definition
import AsmOperand.DefinitionText
import AsmOperand.Ledger.Description
import AsmOperand.Scope.Forest

/-!
# Sessions

A session works on a forest of symbol tables with two ledgers and one location counter. Its
program is a list of steps. A step does one thing, or it checks a list of further steps on a
ledger: the check fails if that ledger got new errors meanwhile. A step that fails is passed over
unless it throws; then its failure ends the list of steps it is in.

What a session yields is a transcript of the same shape as its program, as far as that was run. A
step that was not a check shows what it added to the ledgers and to the log.
-/

namespace AsmOperand.Session

inductive Action where
  | define (name : Text) (value : Int) (source : Option Excerpt)
  | get (name : Text)
  /-- Tests for a name; what is no text is never one. -/
  | contains (name : Option Text)
  | size
  | entries
  | names
  | text
  | sourceOf (name : Text)
  | defineText (path : String) (delimiter : Option Char) (t : Text)
  | defineExcerpts (es : List Excerpt)
  | evaluate (operand : Excerpt)
  | setCounter (c : Counter)
  | readCounter
  | checkByte (range : ByteRange) (value : Int) (source : Option Excerpt)
  | report (kind : Problem.Kind) (detail : Option String) (place : Place)
  | error (message : String) (place : Place)
  | warning (message : String) (place : Place)
  | info (message : String) (place : Place)
  | summarize (path : String)
  | tally
  | reports
  | describe (logger : String)
  deriving Repr

/-- What every step says besides what it does. -/
structure Heading where
  table : Nat
  ledger : Ledger.Name
  throws : Bool
  deriving DecidableEq, Repr

inductive Program where
  | done
  | step (h : Heading) (a : Action) (rest : Program)
  | check (h : Heading) (body rest : Program)
  deriving Repr

inductive Answer where
  | nothing
  | number (v : Int)
  | flag (b : Bool)
  | count (n : Nat)
  | name (t : Text)
  | names (ts : List Text)
  | entries (es : List (Text × Int))
  | text (s : String)
  | source (e : Option Excerpt)
  | tally (t : Tally)
  | reports (rs : List Report)
  deriving DecidableEq, Repr

/-- Why a step that is no check fails. -/
inductive Failure where
  | fault (f : Fault)
  | unknownName (name : Text)
  | unknownTable (index : Nat)
  | refused (r : Report)
  deriving DecidableEq, Repr

abbrev Stop := Ledger.Stop Failure

structure State where
  forest : Forest
  counter : Counter
  desk : Desk := {}
  /-- How often the location counter was read since it was set. -/
  reads : Nat := 0

abbrev Step := EStateM Failure State

/-- The scope of a table. -/
def scope (table : Nat) : Step Scope := do
  match (← get).forest.scope? table with
  | some s => return s
  | none => throw (.unknownTable table)

def modifyDesk (f : Desk → Desk) : Step Unit := modify fun st => { st with desk := f st.desk }

/-- Does work at the workplace of a table. What it defines goes into that table. -/
def work {α : Type} (settings : Settings) (h : Heading) (job : Job → Work α) : Step α := do
  let s ← scope h.table
  let st ← get
  let place (w : Workplace) : State :=
    { st with forest := st.forest.setTable h.table w.scope.inner, desk := w.desk, reads := w.reads }
  match (job ⟨settings, st.counter.reading, h.ledger⟩).run ⟨s, st.desk, st.reads⟩ with
  | .ok a w => do
    set (place w)
    return a
  | .error f w => do
    set (place w)
    throw (.fault f)

/-- The names and values of a table's scope. -/
def entries (table : Nat) : Step Answer := do
  match (← scope table).entries with
  | .ok es => return .entries es
  | .error name => throw (.unknownName name)

def perform (settings : Settings) (h : Heading) : Action → Step Answer
  | .define name value source => do
    match (← scope h.table).define name value source with
    | .error r => throw (.refused r)
    | .ok (kept, s) => do
      modify fun st => { st with forest := st.forest.setTable h.table s.inner }
      return .name kept
  | .get name => do
    match (← scope h.table).lookup name with
    | .ok v => return .number v
    | .error name => throw (.unknownName name)
  | .contains none => return .flag false
  | .contains (some name) => return .flag ((← scope h.table).contains name)
  | .size => return .count (← scope h.table).size
  | .entries => entries h.table
  | .names => return .names (← scope h.table).names
  | .text => return .text (← scope h.table).inner.text
  | .sourceOf name => return .source ((← scope h.table).inner.sourceOf name)
  | .defineText path delimiter t => do
    work settings h fun j => j.defineAll (DefinitionText.entries delimiter path t.lines)
    entries h.table
  | .defineExcerpts es => do
    work settings h fun j => j.defineAll es
    entries h.table
  | .evaluate operand => return .number (← work settings h fun j => j.evaluate operand)
  | .setCounter c => do
    modify fun st => { st with counter := c, reads := 0 }
    return .nothing
  | .readCounter => do
    let st ← get
    set { st with reads := st.reads + 1 }
    return .number (st.counter.reading st.reads)
  | .checkByte range value source => do
    let (value, problem) := range.check value
    match problem with
    | none => return .number value
    | some p => do
      modifyDesk fun d => d.error h.ledger p (.ofSource source)
      return .number value
  | .report kind detail place => do
    modifyDesk fun d => d.error h.ledger (.reported kind detail) place
    return .nothing
  | .error message place => do
    modifyDesk fun d => d.error h.ledger (.described message) place
    return .nothing
  | .warning message place => do
    modifyDesk fun d => d.warning h.ledger message place
    return .nothing
  | .info message place => do
    modifyDesk fun d => d.info message place
    return .nothing
  | .summarize path => do
    modifyDesk fun d => d.summarize h.ledger path
    return .nothing
  | .tally => return .tally ((← get).desk.ledger h.ledger).tally
  | .reports => return .reports ((← get).desk.ledger h.ledger).reports.toList
  | .describe logger => return .text (((← get).desk.ledger h.ledger).description logger)

/-- What the steps of a list have come to. -/
inductive Transcript where
  | done
  | step (outcome : Except Stop Answer) (reports : List Report) (log : List Record)
      (rest : Transcript)
  | check (outcome : Except Stop Unit) (body rest : Transcript)
  deriving Repr

/-- What was added between two states of a desk: the errors of both ledgers, and the log. -/
def added (before after : Desk) : List Report × List Record :=
  (after.a.reportsSince before.a.reports.size ++ after.b.reportsSince before.b.reports.size,
    after.log.toList.drop before.log.size)

/-- The end of a list of steps: what it came to, the failure that ended it early, and the state.
-/
structure Outcome where
  transcript : Transcript
  thrown : Option Stop
  state : State

/-- The failure that a step's outcome throws. -/
def thrownBy {α : Type} (h : Heading) : Except Stop α → Option Stop
  | .error e => if h.throws then some e else none
  | .ok _ => none

def run (settings : Settings) : Program → State → Outcome
  | .done, st => ⟨.done, none, st⟩
  | .step h a rest, st =>
    let (outcome, after) := match (perform settings h a).run st with
      | .ok answer st => (Except.ok answer, st)
      | .error e st => (Except.error (Ledger.Stop.other e), st)
    let (reports, log) := added st.desk after.desk
    match thrownBy h outcome with
    | some e => ⟨.step outcome reports log .done, some e, after⟩
    | none =>
      let r := run settings rest after
      ⟨.step outcome reports log r.transcript, r.thrown, r.state⟩
  | .check h body rest, st =>
    let b := run settings body st
    let reports :=
      (b.state.desk.ledger h.ledger).reportsSince (st.desk.ledger h.ledger).reports.size
    let outcome := Ledger.settle h.ledger reports (match b.thrown with
      | some e => .error e
      | none => .ok ())
    match thrownBy h outcome with
    | some e => ⟨.check outcome b.transcript .done, some e, b.state⟩
    | none =>
      let r := run settings rest b.state
      ⟨.check outcome b.transcript r.transcript, r.thrown, r.state⟩

end AsmOperand.Session
