import AsmOperand.Proofs.Writing

/-!
# Every value fits the register

With a width that leaves room for a value, an operand always has one, and the register holds it. So
it is with the two values that an operator stands between, at every depth of parentheses.
-/

namespace AsmOperand

/-- If the event is a step, the register holds both its values. -/
def Event.Fits (w : Width) : Event → Prop
  | .problem _ _ => True
  | .combined lhs _ rhs => w.Holds lhs ∧ w.Holds rhs

namespace Env

/-- A step is written for values that fit, and nothing is asked of problems. -/
theorem admits_fits (env : Env) (s : Scan) : env.Admits (Event.Fits env.settings.width) s := by
  have overlong (long : Option Excerpt) :
      env.AdmitsOverlong (Event.Fits env.settings.width) long := fun _ _ => trivial
  induction s with
  | done => trivial
  | unclosed opened => trivial
  | group long body rest ihBody ihRest => exact ⟨overlong long, ihBody, ihRest⟩
  | quoted unended long chars rest ih => exact ⟨fun _ _ => trivial, overlong long, ih⟩
  | word long token rest ih =>
    refine ⟨overlong long, ?_, ih⟩
    rw [AdmitsWord]
    cases Token.ofText token.text with
    | operator op =>
      intro lhs rhs hl hr
      exact ⟨⟨hl, hr⟩, fun _ _ => trivial⟩
    | numeral r => trivial
    | name => exact fun _ => trivial

/-- An operand on its line has a value, and the register holds this value and every value that an
operator is applied to on the way. -/
theorem evaluate_fits {env : Env} (pos : env.settings.width.Positive) {e : Excerpt}
    (wf : e.WellFormed) (k : Nat) :
    ∃ o, Yields (env.evaluate e) k o ∧ env.settings.width.Holds o.value ∧
      ∀ lhs op rhs, Event.combined lhs op rhs ∈ o.events →
        env.settings.width.Holds lhs ∧ env.settings.width.Holds rhs := by
  obtain ⟨o, ho, hv, hw⟩ := evaluate_ends pos wf (admits_fits env _) k
  refine ⟨o, ho, hv, ?_⟩
  intro lhs op rhs he
  exact hw _ he

/-- The quotient of the lowest value and minus one is the one that does not fit. -/
theorem evaluate_fits_lowest :
    let env : Env := ⟨Settings.default, fun _ => none, fun _ => 0⟩
    let e := Excerpt.ofText "80000000H/(0-1)".toList
    env.settings.width.Positive ∧ e.WellFormed ∧
      ∃ o, Yields (env.evaluate e) 0 o ∧ env.settings.width.Holds o.value ∧
        ∀ lhs op rhs, Event.combined lhs op rhs ∈ o.events →
          env.settings.width.Holds lhs ∧ env.settings.width.Holds rhs := by
  have wf := Excerpt.wellFormed_ofText "80000000H/(0-1)".toList
  exact ⟨by decide, wf, evaluate_fits (by decide) wf 0⟩

end Env

end AsmOperand
