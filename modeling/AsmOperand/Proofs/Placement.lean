import AsmOperand.Proofs.Relocation

/-!
# An operand on its line and by itself

Nothing on a line but the operand itself bears on its evaluation. An operand that is part of a line
comes to what its text comes to by itself: the same value or the same fault, as many readings of the
location counter, the same problems and steps in the same order. Only the places differ. What was
shown in the text is shown at the same distance from the start of the operand.
-/

namespace AsmOperand

/-- An excerpt of a text that stands by itself, at the place where `whole` has that text. -/
def Excerpt.placed (whole e : Excerpt) : Excerpt :=
  whole.withSpan (whole.start + e.start) (whole.start + e.stop)

/-- The same event, shown in `whole`. -/
def Event.placed (whole : Excerpt) : Event → Event
  | .problem p shown => .problem p (whole.placed shown)
  | .combined lhs op rhs => .combined lhs op rhs

theorem problemsOf_map_placed (whole : Excerpt) (events : List Event) :
    problemsOf (events.map (Event.placed whole)) =
      (problemsOf events).map fun q => (q.1, whole.placed q.2) := by
  induction events with
  | nil => rfl
  | cons event rest ih =>
    cases event with
    | problem p shown =>
      rw [List.map_cons, Event.placed, problemsOf_problem, problemsOf_problem, List.map_cons, ih]
    | combined lhs op rhs =>
      rw [List.map_cons, Event.placed, problemsOf_combined, problemsOf_combined, ih]

def Trace.placed (whole : Excerpt) (t : Trace) : Trace :=
  { t with events := t.events.map (Event.placed whole) }

theorem Trace.placed_empty (whole : Excerpt) (k : Nat) :
    Trace.placed whole ⟨#[], k⟩ = ⟨#[], k⟩ := by
  simp only [Trace.placed, Array.map_empty]

/-- The same end of an evaluation, with all events shown in `whole`. -/
def placedEnd {α : Type} (whole : Excerpt) :
    EStateM.Result Fault Trace α → EStateM.Result Fault Trace α
  | .ok v t => .ok v (t.placed whole)
  | .error f t => .error f (t.placed whole)

/-- The first evaluation ends as the second does, with all events shown in `whole`. -/
def Follows {α : Type} (whole : Excerpt) (m n : Evaluation α) : Prop :=
  ∀ t : Trace, m.run (t.placed whole) = placedEnd whole (n.run t)

theorem Event.placed_eq (whole : Excerpt) : Event.placed whole = Event.shownAt whole.placed := by
  funext event
  cases event with
  | problem p shown => rfl
  | combined lhs op rhs => rfl

/-- What ends in another place, follows. -/
theorem Follows.of_relocates {α : Type} {whole : Excerpt} {m n : Evaluation α}
    (h : Relocates whole.placed n m) : Follows whole m n := by
  intro t
  obtain ⟨⟨result, es, j⟩, alone, here⟩ := h t.reads
  rw [here (t.placed whole) rfl, alone t rfl]
  cases result with
  | ok v => simp [Ending.behind, Ending.shownAt, placedEnd, Trace.placed, Event.placed_eq]
  | error f => simp [Ending.behind, Ending.shownAt, placedEnd, Trace.placed, Event.placed_eq]

namespace Excerpt

theorem relocation_placed (whole : Excerpt) : Relocation whole.placed := by
  constructor
  · intro e a b
    simp only [placed, sub, withSpan, mk.injEq, true_and]
    omega
  · intro e
    simp only [placed, length, withSpan]
    omega

theorem placed_ofText {whole : Excerpt} (wf : whole.WellFormed) :
    whole.placed (ofText whole.text) = whole := by
  have len := length_eq wf
  obtain ⟨path, number, line, start, stop⟩ := whole
  simp only [length] at len
  simp only [placed, ofText, ofLine, withSpan, mk.injEq, true_and, ← len]
  omega

/-- Part of a text by itself that is found in `whole` as well. -/
structure Found (whole e : Excerpt) : Prop where
  wellFormed : e.WellFormed
  inside : (whole.placed e).WellFormed
  same : (whole.placed e).text = e.text

namespace Found

theorem ofText {whole : Excerpt} (wf : whole.WellFormed) : Found whole (ofText whole.text) := by
  refine ⟨wellFormed_ofText _, ?_, ?_⟩
  · rwa [placed_ofText wf]
  · rw [placed_ofText wf, text_ofText]

theorem copied {whole e : Excerpt} (found : Found whole e) : Copied whole.placed e 0 :=
  ⟨found.wellFormed, found.inside, congrArg (List.drop 0) found.same⟩

end Found

end Excerpt

namespace Env

/-- Evaluating an operand is evaluating its text by itself, in another place. -/
theorem evaluate_relocates (env : Env) {e : Excerpt} (wf : e.WellFormed) :
    Relocates e.placed (env.evaluate (.ofText e.text)) (env.evaluate e) := by
  have relocation := e.relocation_placed
  have found := Excerpt.Found.ofText wf
  have scans := Scan.relocated_ofChars env.settings relocation found.copied (List.drop_zero)
  have same := env.pass_relocates relocation scans 0
  rw [Excerpt.placed_ofText wf] at same
  rw [evaluate_eq_pass env wf, evaluate_eq_pass env found.wellFormed, Excerpt.scan, Excerpt.scan]
  rwa [Excerpt.text_ofText] at same ⊢

theorem evaluate_follows (env : Env) {e : Excerpt} (wf : e.WellFormed) :
    Follows e (env.evaluate e) (env.evaluate (.ofText e.text)) :=
  Follows.of_relocates (env.evaluate_relocates wf)

theorem yields_placed {env : Env} {e : Excerpt} (wf : e.WellFormed) {k : Nat} {o : Outcome Int}
    (alone : Yields (env.evaluate (.ofText e.text)) k o) :
    Yields (env.evaluate e) k ⟨o.value, o.events.map (Event.placed e), o.reads⟩ := by
  obtain ⟨x, ends, here⟩ := env.evaluate_relocates wf k
  obtain rfl : x = ⟨.ok o.value, o.events, o.reads⟩ := ends.unique alone
  rw [Event.placed_eq]
  exact here

/-- An operand ends as its text does by itself, with all events shown at the place of the operand.
So operands with the same text differ in their places only, whatever stands around them. -/
theorem evaluate_placed (env : Env) {e : Excerpt} (wf : e.WellFormed) {t : Text}
    (spells : e.text = t) (k : Nat) :
    (env.evaluate e).run ⟨#[], k⟩ = placedEnd e ((env.evaluate (.ofText t)).run ⟨#[], k⟩) := by
  subst spells
  have same := env.evaluate_follows wf ⟨#[], k⟩
  rwa [Trace.placed_empty] at same

/-- A shift by a count below zero is reported at columns 10 to 11 of the line, which are columns 3
to 4 of the operand. -/
theorem evaluate_placed_line :
    let env : Env := ⟨Settings.default, fun _ => none, fun k => 7 + k⟩
    let e : Excerpt := ⟨"test.asm", some 3, "  LD A,$+1<(0-$) ; (".toList, 7, 16⟩
    e.WellFormed ∧ e.text = "$+1<(0-$)".toList ∧
      (env.evaluate e).run ⟨#[], 0⟩ =
        placedEnd e ((env.evaluate (.ofText "$+1<(0-$)".toList)).run ⟨#[], 0⟩) := by
  intro env e
  have wf : e.WellFormed := by decide
  have spells : e.text = "$+1<(0-$)".toList := by decide
  exact ⟨wf, spells, evaluate_placed env wf spells 0⟩

end Env

end AsmOperand
