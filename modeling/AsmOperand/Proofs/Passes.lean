import AsmOperand.Evaluation
import AsmOperand.Proofs.Cuts

/-!
# The operators that wait

A pass with operators waiting is a pass without, followed by combining them. So an operator can be
combined as soon as the rest of the text has its value, and the list of those that wait need not be
looked at again.
-/

namespace AsmOperand.Env

open Evaluation

theorem pass_eq_bind (env : Env) (s : Scan) (pending : List Pending) (value : Int) :
    env.pass s pending value = env.pass s [] value >>= env.unwind pending := by
  induction s generalizing pending value with
  | done => simp only [pass, unwind, pure_bind]
  | unclosed opened => simp only [pass, unwind, bind_assoc, pure_bind]
  | group overlong body rest _ ih => simp only [pass, ih pending, bind_assoc]
  | quoted unended overlong chars rest ih =>
    cases unended with
    | none => simp only [pass, ih pending, bind_assoc]
    | some e => simp only [pass, ih pending, bind_assoc]
  | word overlong token rest ih =>
    cases h : Token.ofText token.text with
    | operator op =>
      -- The operator is put before all others, so it is the first to be combined.
      have behind := ih (⟨op, value, token⟩ :: pending)
      have alone := ih [⟨op, value, token⟩]
      simp only [pass, h, behind, alone, unwind, bind_assoc, pure_bind]
    | numeral r => simp only [pass, h, ih pending, bind_assoc]
    | name =>
      by_cases mark : token.text = counterMark
      · simp only [pass, h, if_pos mark, ih pending, bind_assoc]
      · simp only [pass, h, if_neg mark, ih pending, bind_assoc]

/-- Reports a string that the line ends before. -/
def reportUnended : Option Excerpt → Evaluation Unit
  | none => pure ()
  | some e => report .missingQuote e

/-- What a word that is no operator makes of the value so far. -/
def wordValue (env : Env) (token : Excerpt) (value : Int) : Evaluation Int :=
  match Token.ofText token.text with
  | .operator _ => pure value
  | .numeral r => env.wrap (r.value token.text)
  | .name =>
    if token.text = counterMark then do
      let here ← env.readCounter
      env.wrap here
    else env.lookup token value

section Word
variable (env : Env) (overlong : Option Excerpt) (rest : Scan) (pending : List Pending) (value : Int)

theorem pass_quoted (unended : Option Excerpt) (chars : Text) :
    env.pass (.quoted unended overlong chars rest) pending value = (do
      reportUnended unended
      env.reportOverlong overlong
      let value ← env.wrap (Numeral.packed chars)
      env.pass rest pending value) := by
  cases unended with
  | none => simp only [pass, reportUnended, pure_bind]
  | some e => simp only [pass, reportUnended]

/-- An operator waits from here on; any other word makes something of the value so far. -/
theorem pass_word (token : Excerpt) :
    env.pass (.word overlong token rest) pending value = (do
      env.reportOverlong overlong
      match Token.ofText token.text with
      | .operator op => env.pass rest (⟨op, value, token⟩ :: pending) 0
      | _ => do
        let next ← env.wordValue token value
        env.pass rest pending next) := by
  cases kind : Token.ofText token.text with
  | operator op => simp only [pass, kind]
  | numeral r => simp only [pass, wordValue, kind]
  | name =>
    by_cases mark : token.text = counterMark
    · simp only [pass, wordValue, kind, if_pos mark, bind_assoc]
    · simp only [pass, wordValue, kind, if_neg mark]

/-- An operator stands between the value so far and the value of all that follows it. -/
theorem pass_operator {token : Excerpt} {op : Operator}
    (h : Token.ofText token.text = .operator op) :
    env.pass (.word overlong token rest) [] value = (do
      env.reportOverlong overlong
      let right ← env.pass rest [] 0
      env.combine op value right token) := by
  have alone := pass_eq_bind env rest [⟨op, value, token⟩]
  simp only [pass_word, h, alone, unwind, bind_pure]

theorem pass_wordValue {token : Excerpt} (h : ∀ op, Token.ofText token.text ≠ .operator op) :
    env.pass (.word overlong token rest) pending value = (do
      env.reportOverlong overlong
      let value ← env.wordValue token value
      env.pass rest pending value) := by
  rw [pass_word]
  cases kind : Token.ofText token.text with
  | operator op => exact absurd kind (h op)
  | numeral r => rfl
  | name => rfl

/-- With nothing else waiting, an operator is combined behind the pass over all that follows it. -/
theorem pass_word_nil (token : Excerpt) :
    env.pass (.word overlong token rest) [] value = (do
      env.reportOverlong overlong
      match Token.ofText token.text with
      | .operator op => do
        let right ← env.pass rest [] 0
        env.combine op value right token
      | _ => do
        let next ← env.wordValue token value
        env.pass rest [] next) := by
  cases kind : Token.ofText token.text with
  | operator op => exact pass_operator env overlong rest value kind
  | numeral r => exact pass_wordValue env overlong rest [] value (by simp [kind])
  | name => exact pass_wordValue env overlong rest [] value (by simp [kind])

end Word

/-- An operand on its line is evaluated in one pass. -/
theorem evaluate_eq_pass (env : Env) {e : Excerpt} (wf : e.WellFormed) :
    env.evaluate e = env.pass (e.scan env.settings) [] 0 := by
  have forward : ¬e.isBackward = true := by
    rw [Excerpt.isBackward_eq_false wf]
    decide
  rw [evaluate, if_neg forward]

end AsmOperand.Env
