import AsmOperand.Evaluation
import AsmOperand.Log

/-!
# Ledgers

A ledger counts the errors and warnings of a run and keeps the errors. Two ledgers and the log
they share lie on one desk, so that a client can tell apart the problems of two jobs. Every entry
is logged as well; notices and evaluation steps are only logged.

`Ledger.settle` ends a checked job. It decides what becomes of the problems that came up
meanwhile; how checks are nested is up to the client.
-/

namespace AsmOperand

/-- A count with its noun, in the plural unless there is exactly one. -/
def counted (n : Int) (noun : String) : String :=
  if n = 1 then s!"{n} {noun}" else s!"{n} {noun}s"

/-- How many errors and warnings there were. The counts of a ledger are never below zero; a tally
from elsewhere may have any. -/
structure Tally where
  errors : Int
  warnings : Int
  deriving DecidableEq, Repr

namespace Tally

/-- The level at which the tally itself is worth logging. -/
def level (t : Tally) : Level :=
  if t.errors > 0 then .error else if t.warnings > 0 then .warning else .info

def text (t : Tally) : String :=
  counted t.errors "error" ++ " and " ++ counted t.warnings "warning"

end Tally

structure Ledger where
  tally : Tally := ⟨0, 0⟩
  reports : Array Report := #[]
  deriving DecidableEq, Repr

namespace Ledger

inductive Name where
  | a
  | b
  deriving DecidableEq, Repr

def addError (l : Ledger) (r : Report) : Ledger :=
  { tally := { l.tally with errors := l.tally.errors + 1 }, reports := l.reports.push r }

def addWarning (l : Ledger) : Ledger :=
  { l with tally := { l.tally with warnings := l.tally.warnings + 1 } }

/-- The reports that follow the first `n`. -/
def reportsSince (l : Ledger) (n : Nat) : List Report := l.reports.toList.drop n

/-- Why a job ended early: the gathered errors of a check, or something of another sort. -/
inductive Stop (ε : Type) where
  | gathered (owner : Name) (reports : List Report)
  | other (e : ε)
  deriving DecidableEq, Repr

/-- The message of gathered errors. -/
def gatheredMessage (reports : List Report) : String := counted reports.length "error"

/-- The end of a job that was checked on the ledger `name`, of which `reports` are the errors that
came up meanwhile. Gathered errors of the same ledger are among these already; every other stop
goes on. -/
def settle {ε : Type} (name : Name) (reports : List Report) :
    Except (Stop ε) Unit → Except (Stop ε) Unit
  | .error (.other e) => .error (.other e)
  | .error (.gathered owner rs) =>
    if owner = name then close else .error (.gathered owner rs)
  | .ok () => close
where
  close : Except (Stop ε) Unit :=
    if reports.isEmpty then .ok () else .error (.gathered name reports)

end Ledger

structure Desk where
  a : Ledger := {}
  b : Ledger := {}
  log : Array Record := #[]
  deriving DecidableEq, Repr

namespace Desk

def ledger (d : Desk) : Ledger.Name → Ledger
  | .a => d.a
  | .b => d.b

def setLedger (d : Desk) (name : Ledger.Name) (l : Ledger) : Desk :=
  match name with
  | .a => { d with a := l }
  | .b => { d with b := l }

def write (d : Desk) (r : Record) : Desk := { d with log := d.log.push r }

/-- Enters an error: it is logged at its place, counted and kept with the main excerpt. -/
def error (d : Desk) (name : Ledger.Name) (p : Problem) (place : Place) : Desk :=
  let d := d.write (.message .error p.message place)
  d.setLedger name ((d.ledger name).addError ⟨p, place.main?.toList⟩)

def warning (d : Desk) (name : Ledger.Name) (message : String) (place : Place) : Desk :=
  let d := d.write (.message .warning message place)
  d.setLedger name (d.ledger name).addWarning

def info (d : Desk) (message : String) (place : Place) : Desk :=
  d.write (.message .info message place)

/-- Logs the ledger's tally under a name. -/
def summarize (d : Desk) (name : Ledger.Name) (path : String) : Desk :=
  let t := (d.ledger name).tally
  d.write (.message t.level t.text (.file path))

/-- Enters one event of an evaluation. -/
def enter (name : Ledger.Name) (d : Desk) : Event → Desk
  | .problem p shown => d.error name p (.excerpt shown)
  | .combined lhs op rhs => d.write (.step lhs op rhs)

/-- Enters all events of an evaluation, in order. -/
def enterAll (d : Desk) (name : Ledger.Name) (events : Array Event) : Desk :=
  events.foldl (enter name) d

theorem ledger_setLedger (d : Desk) (name : Ledger.Name) (l : Ledger) :
    (d.setLedger name l).ledger name = l := by
  cases name <;> rfl

theorem ledger_setLedger_of_ne (d : Desk) {m n : Ledger.Name} (l : Ledger) (h : m ≠ n) :
    (d.setLedger m l).ledger n = d.ledger n := by
  cases m <;> cases n <;> simp_all [setLedger, ledger]

end Desk

end AsmOperand
