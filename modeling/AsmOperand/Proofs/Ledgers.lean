import AsmOperand.Ledger
import AsmOperand.Proofs.Outcomes
import Mathlib.Order.Defs.Unbundled

/-!
# Ledgers only grow

Whatever is entered on a desk, a ledger keeps the errors it has and puts new ones behind them, and
it counts as many errors as it got. Warnings are counted apart; notices and steps of an evaluation
are only logged.
-/

namespace AsmOperand

namespace Ledger

/-- The later ledger has the errors of the earlier one and then `more`, all of them counted. -/
structure Adds (l : Ledger) (more : List Report) (later : Ledger) : Prop where
  reports : later.reports.toList = l.reports.toList ++ more
  errors : later.tally.errors = l.tally.errors + more.length

/-- The ledger counts exactly the errors it has. -/
def Balanced (l : Ledger) : Prop := l.tally.errors = l.reports.size

namespace Adds

variable {l m n : Ledger} {rs ss : List Report}

theorem refl (l : Ledger) : l.Adds [] l :=
  ⟨(List.append_nil _).symm, (Int.add_zero _).symm⟩

theorem trans (first : l.Adds rs m) (second : m.Adds ss n) : l.Adds (rs ++ ss) n := by
  constructor
  · rw [second.reports, first.reports, List.append_assoc]
  · rw [second.errors, first.errors, List.length_append]
    omega

/-- What came up meanwhile is what was added. -/
theorem reportsSince (h : l.Adds rs m) : m.reportsSince l.reports.size = rs := by
  rw [Ledger.reportsSince, h.reports, ← Array.length_toList, List.drop_left]

theorem balanced (h : l.Adds rs m) (balanced : l.Balanced) : m.Balanced := by
  have size := congrArg List.length h.reports
  rw [List.length_append, Array.length_toList, Array.length_toList] at size
  have counted : l.tally.errors = l.reports.size := balanced
  have errors := h.errors
  rw [Balanced]
  omega

end Adds

theorem adds_addError (l : Ledger) (r : Report) : l.Adds [r] (l.addError r) :=
  ⟨Array.toList_push, rfl⟩

theorem adds_addWarning (l : Ledger) : l.Adds [] l.addWarning :=
  ⟨(List.append_nil _).symm, (Int.add_zero _).symm⟩

end Ledger

namespace Desk

/-- Both ledgers have all their errors still, each of them counted, and perhaps more. -/
def Grows (d later : Desk) : Prop := ∀ name, ∃ more, (d.ledger name).Adds more (later.ledger name)

instance : Std.Refl Grows := ⟨fun d name => ⟨[], .refl (d.ledger name)⟩⟩

instance : IsTrans Desk Grows where
  trans d e f first second name := by
    obtain ⟨rs, adds⟩ := first name
    obtain ⟨ss, adds'⟩ := second name
    exact ⟨rs ++ ss, adds.trans adds'⟩

/-- What a ledger has reported stays reported. -/
theorem mem_reports_of_grows {d later : Desk} (grows : d.Grows later) (name : Ledger.Name)
    {report : Report} (known : report ∈ (d.ledger name).reports) :
    report ∈ (later.ledger name).reports := by
  obtain ⟨more, adds⟩ := grows name
  rw [← Array.mem_toList_iff] at known ⊢
  rw [adds.reports]
  exact List.mem_append_left more known

/-- Logging changes no ledger. -/
theorem ledger_write (d : Desk) (r : Record) (name : Ledger.Name) :
    (d.write r).ledger name = d.ledger name := by
  cases name <;> rfl

/-- An error goes to the ledger on which it is entered, and to no other. -/
theorem adds_error (d : Desk) (name target : Ledger.Name) (p : Problem) (place : Place) :
    (d.ledger name).Adds (if target = name then [⟨p, place.main?.toList⟩] else [])
      ((d.error target p place).ledger name) := by
  simp only [error]
  by_cases same : target = name
  · subst same
    rw [if_pos rfl, ledger_setLedger, ledger_write]
    exact Ledger.adds_addError _ _
  · rw [if_neg same, ledger_setLedger_of_ne _ _ same, ledger_write]
    exact .refl _

/-- Its own ledger gets an error with the main excerpt of its place. -/
theorem adds_error_self (d : Desk) (name : Ledger.Name) (p : Problem) (place : Place) :
    (d.ledger name).Adds [⟨p, place.main?.toList⟩] ((d.error name p place).ledger name) := by
  have entered := d.adds_error name name p place
  rwa [if_pos rfl] at entered

theorem adds_warning (d : Desk) (name target : Ledger.Name) (message : String) (place : Place) :
    (d.ledger name).Adds [] ((d.warning target message place).ledger name) := by
  simp only [warning]
  by_cases same : target = name
  · subst same
    rw [ledger_setLedger, ledger_write]
    exact Ledger.adds_addWarning _
  · rw [ledger_setLedger_of_ne _ _ same, ledger_write]
    exact .refl _

theorem adds_write (d : Desk) (name : Ledger.Name) (r : Record) :
    (d.ledger name).Adds [] ((d.write r).ledger name) := by
  rw [ledger_write]
  exact .refl _

theorem adds_enterAll (d : Desk) (name target : Ledger.Name) (events : List Event) :
    (d.ledger name).Adds
      (if target = name then (problemsOf events).map fun q => ⟨q.1, [q.2]⟩ else [])
      ((d.enterAll target events.toArray).ledger name) := by
  rw [enterAll, List.foldl_toArray]
  induction events generalizing d with
  | nil =>
    rw [problemsOf_nil, List.map_nil, ite_self]
    exact .refl _
  | cons event rest ih =>
    cases event with
    | problem p shown =>
      have both := (d.adds_error name target p (.excerpt shown)).trans (ih _)
      by_cases same : target = name
      · simp only [if_pos same] at both ⊢
        exact both
      · simp only [if_neg same] at both ⊢
        exact both
    | combined lhs op rhs => exact (d.adds_write name (.step lhs op rhs)).trans (ih _)

theorem grows_error (d : Desk) (name : Ledger.Name) (p : Problem) (place : Place) :
    d.Grows (d.error name p place) :=
  fun other => ⟨_, d.adds_error other name p place⟩

theorem grows_warning (d : Desk) (name : Ledger.Name) (message : String) (place : Place) :
    d.Grows (d.warning name message place) :=
  fun other => ⟨_, d.adds_warning other name message place⟩

theorem grows_write (d : Desk) (r : Record) : d.Grows (d.write r) :=
  fun name => ⟨_, d.adds_write name r⟩

theorem grows_enterAll (d : Desk) (name : Ledger.Name) (events : Array Event) :
    d.Grows (d.enterAll name events) :=
  fun other => ⟨_, d.adds_enterAll other name events.toList⟩

end Desk

end AsmOperand
