import AsmOperand.Proofs.Outcomes
import AsmOperand.Proofs.Passes

/-!
# What a pass writes

With a width that leaves room for a value, a pass always comes to one, and the register holds it:
from one part of the text to the next the value so far fits. What the pass may write can be read off
its scan, part by part. The shift to the right, the zero after a problem and the value that an
unknown name leaves are not wrapped; they fit because what they come from does.
-/

namespace AsmOperand

namespace Env

/-- What may be written where something counts in part only. -/
def AdmitsOverlong (env : Env) (W : Event → Prop) (overlong : Option Excerpt) : Prop :=
  ∀ e ∈ overlong, W (.problem (.tooLong e.length env.settings.maxLength) e)

/-- What may be written where a string ends with its line. -/
def AdmitsUnended (W : Event → Prop) (unended : Option Excerpt) : Prop :=
  ∀ e ∈ unended, W (.problem .missingQuote e)

/-- What may be written when an operator stands between two values that the register holds. -/
def AdmitsOperator (env : Env) (W : Event → Prop) (op : Operator) (shown : Excerpt) : Prop :=
  ∀ lhs rhs, env.settings.width.Holds lhs → env.settings.width.Holds rhs →
    W (.combined lhs op rhs) ∧
      ∀ p, op.result env.settings lhs rhs = .error p → W (.problem p shown)

/-- What may be written for a name. -/
def AdmitsName (env : Env) (W : Event → Prop) (token : Excerpt) : Prop :=
  env.symbols (token.text.take env.settings.symbolSize) = none →
    W (.problem (.undefinedSymbol (token.text.take env.settings.symbolSize)) token)

/-- What may be written for a word. -/
def AdmitsWord (env : Env) (W : Event → Prop) (token : Excerpt) : Prop :=
  match Token.ofText token.text with
  | .operator op => env.AdmitsOperator W op token
  | .numeral _ => True
  | .name => env.AdmitsName W token

/-- All that a pass over the scan may write is as `W` says. -/
def Admits (env : Env) (W : Event → Prop) : Scan → Prop
  | .done => True
  | .unclosed opened => W (.problem .missingParenthesis opened)
  | .group overlong body rest =>
    env.AdmitsOverlong W overlong ∧ env.Admits W body ∧ env.Admits W rest
  | .quoted unended overlong _ rest =>
    AdmitsUnended W unended ∧ env.AdmitsOverlong W overlong ∧ env.Admits W rest
  | .word overlong token rest =>
    env.AdmitsOverlong W overlong ∧ env.AdmitsWord W token ∧ env.Admits W rest

section OfParts
variable {env : Env} {W : Event → Prop} {P : (α : Type) → (α → Prop) → Evaluation α → Prop}
  (parts : OfParts env W P)
include parts

theorem reportOverlong_ofParts {overlong : Option Excerpt}
    (admits : env.AdmitsOverlong W overlong) :
    P Unit (fun _ => True) (env.reportOverlong overlong) := by
  cases overlong with
  | none => exact parts.pure trivial
  | some e => exact parts.report (admits e rfl)

theorem reportUnended_ofParts {unended : Option Excerpt} (admits : AdmitsUnended W unended) :
    P Unit (fun _ => True) (reportUnended unended) := by
  cases unended with
  | none => exact parts.pure trivial
  | some e => exact parts.report (admits e rfl)

variable (pos : env.settings.width.Positive)
include pos

theorem wrap_ofParts (v : Int) : P Int env.settings.width.Holds (env.wrap v) := by
  rw [wrap_eq pos]
  exact parts.pure (Width.holds_wrapped pos v)

theorem combine_ofParts {op : Operator} {shown : Excerpt} (admits : env.AdmitsOperator W op shown)
    {lhs rhs : Int} (hl : env.settings.width.Holds lhs) (hr : env.settings.width.Holds rhs) :
    P Int env.settings.width.Holds (env.combine op lhs rhs shown) := by
  obtain ⟨step, problem⟩ := admits lhs rhs hl hr
  rw [combine_eq pos rhs shown (fun _ => hl)]
  apply parts.bind (parts.write step)
  intro _ _
  cases result : op.result env.settings lhs rhs with
  | ok v => exact parts.pure (Width.holds_wrapped pos v)
  | error p =>
    apply parts.bind (parts.report (problem p result))
    intro _ _
    exact parts.pure (Width.holds_zero _)

theorem lookup_ofParts {token : Excerpt} (admits : env.AdmitsName W token) {value : Int}
    (h : env.settings.width.Holds value) :
    P Int env.settings.width.Holds (env.lookup token value) := by
  simp only [lookup]
  cases known : env.symbols (token.text.take env.settings.symbolSize) with
  | some v => exact wrap_ofParts parts pos v
  | none =>
    apply parts.bind (parts.report (admits known))
    intro _ _
    exact parts.pure h

theorem wordValue_ofParts {token : Excerpt} (admits : env.AdmitsWord W token) {value : Int}
    (h : env.settings.width.Holds value) :
    P Int env.settings.width.Holds (env.wordValue token value) := by
  simp only [wordValue]
  cases kind : Token.ofText token.text with
  | operator op => exact parts.pure h
  | numeral r => exact wrap_ofParts parts pos _
  | name =>
    by_cases mark : token.text = counterMark
    · rw [if_pos mark]
      apply parts.bind parts.readCounter
      intro here _
      exact wrap_ofParts parts pos here
    · rw [if_neg mark]
      rw [AdmitsWord, kind] at admits
      exact lookup_ofParts parts pos admits h

/-- The value so far fits from one part of the text to the next. -/
theorem pass_ofParts {s : Scan} (admits : env.Admits W s) {value : Int}
    (h : env.settings.width.Holds value) :
    P Int env.settings.width.Holds (env.pass s [] value) := by
  have zero := Width.holds_zero env.settings.width
  induction s generalizing value with
  | done => exact parts.pure h
  | unclosed opened =>
    apply parts.bind (parts.report admits)
    intro _ _
    exact parts.pure h
  | group overlong body rest ihBody ihRest =>
    obtain ⟨long, inBody, inRest⟩ := admits
    apply parts.bind (reportOverlong_ofParts parts long)
    intro _ _
    apply parts.bind (ihBody inBody zero)
    intro v hv
    exact ihRest inRest hv
  | quoted unended overlong chars rest ih =>
    obtain ⟨ended, long, inRest⟩ := admits
    rw [pass_quoted]
    apply parts.bind (reportUnended_ofParts parts ended)
    intro _ _
    apply parts.bind (reportOverlong_ofParts parts long)
    intro _ _
    apply parts.bind (wrap_ofParts parts pos _)
    intro v hv
    exact ih inRest hv
  | word overlong token rest ih =>
    obtain ⟨long, inWord, inRest⟩ := admits
    by_cases isOp : ∃ op, Token.ofText token.text = .operator op
    · obtain ⟨op, hop⟩ := isOp
      rw [pass_operator env overlong rest value hop]
      rw [AdmitsWord, hop] at inWord
      apply parts.bind (reportOverlong_ofParts parts long)
      intro _ _
      apply parts.bind (ih inRest zero)
      intro right hr
      exact combine_ofParts parts pos inWord h hr
    · rw [pass_wordValue env overlong rest [] value (fun op hop => isOp ⟨op, hop⟩)]
      apply parts.bind (reportOverlong_ofParts parts long)
      intro _ _
      apply parts.bind (wordValue_ofParts parts pos inWord h)
      intro v hv
      exact ih inRest hv

/-- What passes from the parts of evaluations to the whole holds of an operand on its line, with a
value that the register holds. -/
theorem evaluate_ofParts {e : Excerpt} (wf : e.WellFormed)
    (admits : env.Admits W (e.scan env.settings)) :
    P Int env.settings.width.Holds (env.evaluate e) := by
  rw [evaluate_eq_pass env wf]
  exact pass_ofParts parts pos admits (Width.holds_zero _)

end OfParts

/-- An operand on its line has a value that the register holds. -/
theorem evaluate_ends {env : Env} (pos : env.settings.width.Positive) {W : Event → Prop}
    {e : Excerpt} (wf : e.WellFormed) (admits : env.Admits W (e.scan env.settings)) :
    Ends env.settings.width.Holds W (env.evaluate e) :=
  evaluate_ofParts (Ends.ofParts env W) pos wf admits

end Env

end AsmOperand
