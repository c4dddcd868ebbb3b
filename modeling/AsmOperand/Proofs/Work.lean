import AsmOperand.Definition
import AsmOperand.Proofs.Cuts
import AsmOperand.Proofs.Ledgers
import AsmOperand.Proofs.Symbols

/-!
# What work leaves behind

Work on definitions may be broken off, and what it did until then remains. Either way the scope has
taken definitions, one after the other, and both ledgers have only grown. This holds for every step
of the work and so for any amount of it.
-/

namespace AsmOperand

/-- The state at the end of a run, whether it has a value or was broken off. -/
def finalState {ε σ α : Type} : EStateM.Result ε σ α → σ
  | .ok _ s => s
  | .error _ s => s

/-- However the run ends, `R` relates the state before it to the state at its end. -/
def Moves {ε σ α : Type} (R : σ → σ → Prop) (m : EStateM ε σ α) : Prop :=
  ∀ s, R s (finalState (m.run s))

namespace Moves

variable {ε σ α β : Type} {R : σ → σ → Prop}

theorem of_ok {m : EStateM ε σ α} (h : Moves R m) {s s' : σ} {a : α}
    (ends : m.run s = .ok a s') : R s s' := by
  have here := h s
  rwa [ends] at here

theorem pure [Std.Refl R] (a : α) : Moves R (pure a : EStateM ε σ α) := fun s => refl_of R s

theorem modify {f : σ → σ} (h : ∀ s, R s (f s)) :
    Moves R (modify f : EStateM ε σ PUnit) := h

theorem bind [IsTrans σ R] {m : EStateM ε σ α} {f : α → EStateM ε σ β} (first : Moves R m)
    (second : ∀ a, Moves R (f a)) : Moves R (m >>= f) := by
  intro s
  have here := first s
  rw [EStateM.run_bind]
  cases ends : m.run s with
  | ok a s' =>
    rw [ends] at here
    exact trans_of R here (second a s')
  | error e s' =>
    rw [ends] at here
    exact here

/-- What follows may depend on the state that is read. -/
theorem get_bind {f : σ → EStateM ε σ α} (h : ∀ s, R s (finalState ((f s).run s))) :
    Moves R (get >>= f) := h

end Moves

/-- What work does to its workplace. -/
structure Workplace.Grows (w later : Workplace) : Prop where
  scope : w.scope.Grows later.scope
  desk : w.desk.Grows later.desk

namespace Workplace

instance : Std.Refl Grows := ⟨fun _ => ⟨refl_of Scope.Grows _, refl_of Desk.Grows _⟩⟩

instance : IsTrans Workplace Grows where
  trans _ _ _ first second := ⟨trans_of Scope.Grows first.scope second.scope,
    trans_of Desk.Grows first.desk second.desk⟩

end Workplace

namespace Job

/-- Where the table cuts names as the settings say, something is left of every name. -/
theorem sized_of_symbolSize {j : Job} {w : Workplace}
    (size : w.scope.inner.symbolSize = j.settings.symbolSize) : w.scope.inner.Sized := by
  have positive := j.settings.symbolSize_pos
  rw [Table.Sized, size]
  omega

variable (j : Job)

theorem evaluate_grows (operand : Excerpt) : Moves Workplace.Grows (j.evaluate operand) := by
  intro w
  show w.Grows (finalState (j.evaluate operand w))
  rw [evaluate]
  cases ((j.env w.scope).evaluate operand).run { reads := w.reads } with
  | ok v t => exact ⟨refl_of Scope.Grows _, w.desk.grows_enterAll j.ledger t.events⟩
  | error f t => exact ⟨refl_of Scope.Grows _, w.desk.grows_enterAll j.ledger t.events⟩

theorem error_grows (p : Problem) (place : Place) : Moves Workplace.Grows (j.error p place) :=
  Moves.modify fun w => ⟨refl_of Scope.Grows _, w.desk.grows_error j.ledger p place⟩

theorem bind_grows (name : Text) (value : Int) (source : Excerpt) :
    Moves Workplace.Grows (j.bind name value source) := by
  apply Moves.get_bind
  intro w
  cases defined : w.scope.define name value (some source) with
  | error r => exact j.error_grows _ _ w
  | ok result =>
    obtain ⟨kept, scope⟩ := result
    exact ⟨.single ⟨name, kept, value, some source, defined⟩, w.desk.grows_write _⟩

/-- How many characters the name at the start of a definition has. -/
def nameLength (line : Excerpt) : Nat := (line.text.takeWhile fun c => !Text.isBlank c).length

/-- The name that is defined on a line. -/
def nameOf (line : Excerpt) : Excerpt := line.sub 0 (nameLength line)

/-- What stands behind the name. -/
def expressionOf (line : Excerpt) : Excerpt := line.tail (nameLength line)

section Parts
variable {line : Excerpt} (wf : line.WellFormed)
include wf

theorem wellFormed_expressionOf : (expressionOf line).WellFormed :=
  Excerpt.wellFormed_tail wf (List.takeWhile_sublist _).length_le

/-- The name goes to the first blank. -/
theorem text_nameOf : (nameOf line).text = line.text.takeWhile fun c => !Text.isBlank c := by
  have inside : nameLength line ≤ line.text.length := (List.takeWhile_sublist _).length_le
  rw [nameOf, Excerpt.text_sub wf (Nat.zero_le _) inside]
  exact (List.prefix_iff_eq_take.mp (List.takeWhile_prefix _)).symm

theorem text_expressionOf :
    (expressionOf line).text = line.text.dropWhile fun c => !Text.isBlank c := by
  have parts := List.takeWhile_append_dropWhile (p := fun c => !Text.isBlank c) (l := line.text)
  have inside : nameLength line ≤ line.text.length := (List.takeWhile_sublist _).length_le
  rw [expressionOf, Excerpt.text_tail wf inside]
  calc line.text.drop (nameLength line)
      = (line.text.takeWhile (fun c => !Text.isBlank c) ++
          line.text.dropWhile fun c => !Text.isBlank c).drop (nameLength line) := by rw [parts]
    _ = line.text.dropWhile fun c => !Text.isBlank c := List.drop_left

end Parts

/-- What becomes of a definition whose span runs forward. -/
theorem define_eq {line : Excerpt} (forward : line.isBackward = false) : j.define line =
    if (expressionOf line).text.isAllBlank then
      j.error (.missingValue (nameOf line).text) (.excerpt line.endpoint)
    else if !isValidName (some j.settings.delimiter) (nameOf line).text then
      j.error (.badName (nameOf line).text) (.excerpt (nameOf line))
    else (do
      let value ← j.evaluate (expressionOf line)
      j.bind (nameOf line).text value (nameOf line)) := by
  rw [define, forward, if_neg Bool.false_ne_true]
  rfl

theorem define_grows (line : Excerpt) : Moves Workplace.Grows (j.define line) := by
  cases direction : line.isBackward with
  | true =>
    rw [define, direction, if_pos rfl]
    exact fun w => refl_of Workplace.Grows w
  | false =>
    rw [j.define_eq direction]
    by_cases missing : (expressionOf line).text.isAllBlank = true
    · rw [if_pos missing]
      exact j.error_grows _ _
    rw [if_neg missing]
    by_cases bad : (!isValidName (some j.settings.delimiter) (nameOf line).text) = true
    · rw [if_pos bad]
      exact j.error_grows _ _
    rw [if_neg bad]
    apply Moves.bind (j.evaluate_grows _)
    intro value
    exact j.bind_grows _ value _

/-- Any amount of work. -/
theorem defineAll_grows (lines : List Excerpt) : Moves Workplace.Grows (j.defineAll lines) := by
  induction lines with
  | nil => exact Moves.pure ()
  | cons line rest ih => exact Moves.bind (j.define_grows line) fun _ => ih

end Job

end AsmOperand
