import AsmOperand.Ledger
import AsmOperand.Text.Escaped

/-!
# Description of a ledger

One line that shows everything a ledger holds: its logger, its counts, and the messages of its
errors in escaped form.
-/

namespace AsmOperand

def Tally.description (t : Tally) : String :=
  s!"ProblemCounter(num_errors={t.errors}, num_warnings={t.warnings})"

def Report.description (r : Report) : String :=
  "BadInput(" ++ String.ofList (Text.escaped r.problem.message.toList) ++ ")"

/-- The description, `logger` being that of the logger it writes to. -/
def Ledger.description (l : Ledger) (logger : String) : String :=
  let reports := ", ".intercalate (l.reports.toList.map Report.description)
  s!"ErrorCollector(logger={logger}, problem_counter={l.tally.description}, errors=[{reports}])"

end AsmOperand
