import AsmOperand.Proofs.Grammar
import AsmOperand.Proofs.Work

/-!
# What is defined can be read

A definition on its line that stores a symbol stores the value of its expression, and from then on
every name that is kept like the one defined is evaluated to that value, in as many characters as
the length limit allows. Nothing is entered for it on the desk, and the location counter is not
read. Later definitions make no difference, whether they are refused or not and whatever job they
belong to.
-/

namespace AsmOperand

/-- A name with a value that the register holds is evaluated to this value, and nothing is
written. -/
theorem Env.evaluate_name {env : Env} (pos : env.settings.width.Positive) {e : Excerpt}
    (wf : e.WellFormed) (valid : isValidName (some env.settings.delimiter) e.text = true)
    (plain : ∀ c ∈ e.text, Text.isBlank c = false)
    (short : e.text.length ≤ env.settings.maxLength) {v : Int}
    (known : env.symbols (e.text.take env.settings.symbolSize) = some v)
    (held : env.settings.width.Holds v) : env.evaluate e = pure v := by
  obtain ⟨word, kind, mark⟩ := openWord_of_isValidName valid plain
  obtain ⟨token, spelled, step⟩ := evaluate_word wf word short (by simp [kind])
  rw [step]
  simp only [wordValue, spelled, kind, if_neg mark, lookup, known, wrap_eq pos,
    Width.wrapped_of_holds pos held]

namespace Job

/-- The conditions on which a definition is taken. -/
structure Accepts (j : Job) (s : Scope) (line : Excerpt) : Prop where
  expression : (expressionOf line).text.isAllBlank = false
  valid : isValidName (some j.settings.delimiter) (nameOf line).text = true
  fresh : ∀ old, s.lookup (nameOf line).text ≠ .ok old

variable {j : Job}

/-- Work that evaluates an operand ends as the evaluation does. -/
theorem run_evaluate {w : Workplace} {e : Excerpt} {o : Outcome Int}
    (yields : Yields ((j.env w.scope).evaluate e) w.reads o) : (j.evaluate e).run w =
      .ok o.value { w with
        desk := w.desk.enterAll j.ledger o.events.toArray, reads := o.reads } := by
  have ran := yields { reads := w.reads } rfl
  show j.evaluate e w = _
  rw [evaluate, ran]
  simp [Outcome.after]

/-- A name is bound unless it has a value, and either way the work goes on. -/
theorem run_bind {w : Workplace} (sized : w.scope.inner.Sized) (name : Text) (value : Int)
    (source : Excerpt) : ∃ later, (j.bind name value source).run w = .ok () later ∧
      ((∀ old, w.scope.lookup name ≠ .ok old) →
        later.scope = w.scope.store name value (some source)) ∧
      (∀ old, w.scope.lookup name = .ok old → later.scope = w.scope) := by
  rw [bind, EStateM.run_bind, EStateM.run_get]
  simp only [Scope.define_eq sized]
  cases known : w.scope.lookup name with
  | ok old =>
    refine ⟨_, rfl, ?_, fun _ _ => rfl⟩
    intro fresh
    exact absurd rfl (fresh old)
  | error key =>
    refine ⟨_, rfl, fun _ => rfl, ?_⟩
    intro old found
    cases found

theorem adds_error (p : Problem) (place : Place) {w later : Workplace}
    (ran : (j.error p place).run w = .ok () later) :
    ∃ more, more ≠ [] ∧ (w.desk.ledger j.ledger).Adds more (later.desk.ledger j.ledger) := by
  cases ran
  exact ⟨_, List.cons_ne_nil _ _, w.desk.adds_error_self j.ledger p place⟩

section Positive
variable (pos : j.settings.width.Positive)
include pos

theorem evaluate_ok {e : Excerpt} (wf : e.WellFormed) (w : Workplace) :
    ∃ v t, (j.evaluate e).run w = .ok v t ∧ j.settings.width.Holds v ∧ t.scope = w.scope := by
  have fits := Env.admits_fits (j.env w.scope) (e.scan j.settings)
  obtain ⟨o, yields, held, _⟩ := Env.evaluate_ends pos wf fits w.reads
  exact ⟨o.value, _, run_evaluate yields, held, rfl⟩

/-- A definition on its line is worked through. If it is taken, its name gets the value of its
expression, and otherwise the scope is left as it is. -/
theorem define_ok {line : Excerpt} (wf : line.WellFormed) {w : Workplace}
    (sized : w.scope.inner.Sized) : ∃ later v t, (j.define line).run w = .ok () later ∧
      (j.evaluate (expressionOf line)).run w = .ok v t ∧ j.settings.width.Holds v ∧
      (j.Accepts w.scope line →
        later.scope = w.scope.store (nameOf line).text v (some (nameOf line))) ∧
      (¬j.Accepts w.scope line → later.scope = w.scope) := by
  obtain ⟨v, t, evaluated, held, same⟩ := evaluate_ok pos (wellFormed_expressionOf wf) w
  rw [define_eq j (Excerpt.isBackward_eq_false wf)]
  by_cases missing : (expressionOf line).text.isAllBlank = true
  · rw [if_pos missing]
    refine ⟨_, v, t, rfl, evaluated, held, ?_, fun _ => rfl⟩
    intro accepts
    rw [accepts.expression] at missing
    cases missing
  rw [if_neg missing]
  by_cases bad : (!isValidName (some j.settings.delimiter) (nameOf line).text) = true
  · rw [if_pos bad]
    refine ⟨_, v, t, rfl, evaluated, held, ?_, fun _ => rfl⟩
    intro accepts
    rw [accepts.valid] at bad
    cases bad
  rw [if_neg bad, ← same]
  rw [← same] at sized
  obtain ⟨later, bound, stored, refused⟩ :=
    run_bind (j := j) sized (nameOf line).text v (nameOf line)
  refine ⟨later, v, t, ?_, evaluated, held, fun accepts => stored accepts.fresh, ?_⟩
  · rw [EStateM.run_bind, evaluated]
    exact bound
  · intro refuses
    by_cases known : ∃ old, t.scope.lookup (nameOf line).text = .ok old
    · obtain ⟨old, known⟩ := known
      exact refused old known
    · refine absurd ⟨by simpa using missing, by simpa using bad, ?_⟩ refuses
      exact not_exists.mp known

/-- What is not accepted is entered as an error. -/
theorem adds_of_not_accepts {line : Excerpt} (wf : line.WellFormed) {w later : Workplace}
    (sized : w.scope.inner.Sized) (ran : (j.define line).run w = .ok () later)
    (refuses : ¬j.Accepts w.scope line) :
    ∃ more, more ≠ [] ∧ (w.desk.ledger j.ledger).Adds more (later.desk.ledger j.ledger) := by
  rw [define_eq j (Excerpt.isBackward_eq_false wf)] at ran
  by_cases missing : (expressionOf line).text.isAllBlank = true
  · rw [if_pos missing] at ran
    exact adds_error _ _ ran
  rw [if_neg missing] at ran
  by_cases bad : (!isValidName (some j.settings.delimiter) (nameOf line).text) = true
  · rw [if_pos bad] at ran
    exact adds_error _ _ ran
  rw [if_neg bad] at ran
  obtain ⟨v, t, evaluated, _, same⟩ := evaluate_ok pos (wellFormed_expressionOf wf) w
  rw [EStateM.run_bind, evaluated] at ran
  have known : ∃ old, t.scope.lookup (nameOf line).text = .ok old := by
    by_contra fresh
    rw [same] at fresh
    exact refuses ⟨by simpa using missing, by simpa using bad, not_exists.mp fresh⟩
  obtain ⟨old, known⟩ := known
  obtain ⟨before, grown⟩ := ((j.evaluate_grows _).of_ok evaluated).desk j.ledger
  rw [← same] at sized
  have refused : (j.bind (nameOf line).text v (nameOf line)).run t = .ok () later := ran
  rw [bind, EStateM.run_bind, EStateM.run_get] at refused
  simp only [Scope.define_eq sized, known] at refused
  obtain ⟨more, some, entered⟩ := adds_error _ _ refused
  exact ⟨before ++ more, List.append_ne_nil_of_right_ne_nil _ some, grown.trans entered⟩

theorem defineAll_ok {lines : List Excerpt} (wf : ∀ line ∈ lines, line.WellFormed) {w : Workplace}
    (sized : w.scope.inner.Sized) : ∃ later, (j.defineAll lines).run w = .ok () later ∧
      later.scope.inner.Sized := by
  induction lines generalizing w with
  | nil => exact ⟨w, rfl, sized⟩
  | cons line rest ih =>
    obtain ⟨here, others⟩ := List.forall_mem_cons.mp wf
    obtain ⟨next, _, _, defined, _⟩ := define_ok pos here sized
    have grows := (j.define_grows line).of_ok defined
    obtain ⟨later, worked, sizedLater⟩ := ih others (Scope.sized_of_grows sized grows.scope)
    refine ⟨later, ?_, sizedLater⟩
    rw [defineAll, EStateM.run_bind, defined]
    exact worked

end Positive

end Job

/-- The workplace after further runs over definitions, each a job of its own, however they end. -/
def Workplace.afterRuns (w : Workplace) (runs : List (Job × List Excerpt)) : Workplace :=
  runs.foldl (fun w run => finalState ((run.1.defineAll run.2).run w)) w

theorem Workplace.grows_afterRuns (w : Workplace) (runs : List (Job × List Excerpt)) :
    w.Grows (w.afterRuns runs) := by
  induction runs generalizing w with
  | nil => exact refl_of Workplace.Grows w
  | cons run rest ih =>
    exact trans_of Workplace.Grows (run.1.defineAll_grows run.2 w) (ih _)

namespace Job

variable {j : Job} (pos : j.settings.width.Positive)
include pos

/-- A name that has a value is evaluated to it, and the workplace stays as it is. -/
theorem run_evaluate_name {w : Workplace} {e : Excerpt} (wf : e.WellFormed)
    (valid : isValidName (some j.settings.delimiter) e.text = true)
    (plain : ∀ c ∈ e.text, Text.isBlank c = false) (short : e.text.length ≤ j.settings.maxLength)
    {v : Int} (known : w.scope.lookup (e.text.take j.settings.symbolSize) = .ok v)
    (held : j.settings.width.Holds v) : (j.evaluate e).run w = .ok v w := by
  have symbol : (j.env w.scope).symbols (e.text.take j.settings.symbolSize) = some v :=
    Scope.lookup?_eq_some_iff.mpr known
  have evaluated : (j.env w.scope).evaluate e = pure v :=
    Env.evaluate_name pos wf valid plain short symbol held
  have yields := Yields.pure v w.reads
  rw [← evaluated] at yields
  exact run_evaluate yields

/-- Definitions on their lines are all worked through. A line that is taken stores the value of its
expression; from the end of the run on, every name that is kept like the one on the line is
evaluated to that value, and the workplace stays as it is. Any other line stores nothing. -/
theorem define_readable {before after : List Excerpt} {line : Excerpt}
    (wf : ∀ e ∈ before ++ line :: after, e.WellFormed) {w : Workplace}
    (size : w.scope.inner.symbolSize = j.settings.symbolSize) :
    let kept := (nameOf line).text.take j.settings.symbolSize
    ∃ w₁ w₂ w₃ v t, (j.defineAll before).run w = .ok () w₁ ∧
      (j.define line).run w₁ = .ok () w₂ ∧ (j.defineAll after).run w₂ = .ok () w₃ ∧
      (j.evaluate (expressionOf line)).run w₁ = .ok v t ∧
      (¬j.Accepts w₁.scope line → w₂.scope = w₁.scope) ∧
      (j.Accepts w₁.scope line →
        w₂.scope.inner.symbols = w₁.scope.inner.symbols ++ [⟨kept, v, some (nameOf line)⟩] ∧
        ∀ (runs : List (Job × List Excerpt)) (e : Excerpt), e.WellFormed →
          isValidName (some j.settings.delimiter) e.text = true →
          (∀ c ∈ e.text, Text.isBlank c = false) → e.text.length ≤ j.settings.maxLength →
          e.text.take j.settings.symbolSize = kept →
          (j.evaluate e).run (w₃.afterRuns runs) = .ok v (w₃.afterRuns runs)) := by
  intro kept
  have sized : w.scope.inner.Sized := by
    have positive := j.settings.symbolSize_pos
    rw [Table.Sized, size]
    omega
  obtain ⟨wfBefore, wfLine, wfAfter⟩ : (∀ e ∈ before, e.WellFormed) ∧ line.WellFormed ∧
      ∀ e ∈ after, e.WellFormed := by
    simpa only [List.forall_mem_append, List.forall_mem_cons] using wf
  obtain ⟨w₁, ran₁, sized₁⟩ := defineAll_ok pos wfBefore sized
  obtain ⟨w₂, v, t, ran₂, evaluated, held, taken, refused⟩ := define_ok pos wfLine sized₁
  have sized₂ := Scope.sized_of_grows sized₁ ((j.define_grows line).of_ok ran₂).scope
  obtain ⟨w₃, ran₃, _⟩ := defineAll_ok pos wfAfter sized₂
  refine ⟨w₁, w₂, w₃, v, t, ran₁, ran₂, ran₃, evaluated, refused, ?_⟩
  intro accepts
  have stored := taken accepts
  have clips (name : Text) : w₁.scope.inner.clip name = name.take j.settings.symbolSize := by
    have continues :=
      Scope.continues_of_grows sized ((j.defineAll_grows before).of_ok ran₁).scope
    rw [Table.clip_eq_take sized₁, continues.symbolSize, size, Int.toNat_natCast]
  constructor
  · rw [stored, Scope.symbols_store accepts.fresh, clips]
  intro runs e wfName valid plain short alike
  have found : w₂.scope.lookup (e.text.take j.settings.symbolSize) = .ok v := by
    rw [stored, Scope.lookup_store accepts.fresh, if_pos]
    rw [clips, clips, alike, List.take_take, Nat.min_self]
  -- No later definition takes the value away.
  have grows : w₂.Grows (w₃.afterRuns runs) :=
    trans_of Workplace.Grows ((j.defineAll_grows after).of_ok ran₃) (w₃.grows_afterRuns runs)
  have later := (Scope.continues_of_grows sized₂ grows.scope).values _ v found
  exact run_evaluate_name pos wfName valid plain short later held

end Job

/-- The table keeps eight characters, and its parent has a symbol that the expression uses. A later
line is refused, as it would define the name once more. -/
theorem Job.define_readable_buffer :
    let j : Job := ⟨Settings.default, fun _ => 0, .a⟩
    let w : Workplace := { scope := ⟨⟨8, []⟩, [⟨4, [⟨"AB".toList, 2, none⟩]⟩], []⟩ }
    let line := Excerpt.ofText "BUFFER_START AB+3".toList
    let last := Excerpt.ofText "BUFFER_SIZE 9".toList
    let e := Excerpt.ofText "BUFFER_S(')".toList
    j.settings.width.Positive ∧ (∀ e ∈ [] ++ line :: [last], e.WellFormed) ∧
      w.scope.inner.symbolSize = j.settings.symbolSize ∧ j.Accepts w.scope line ∧
      ∃ w₂ w₃, (j.define line).run w = .ok () w₂ ∧ (j.defineAll [last]).run w₂ = .ok () w₃ ∧
        ∀ runs, (j.evaluate e).run (w₃.afterRuns runs) = .ok 5 (w₃.afterRuns runs) := by
  intro j w line last e
  have pos : j.settings.width.Positive := by decide
  have size : w.scope.inner.symbolSize = j.settings.symbolSize := rfl
  have wf : ∀ e ∈ [] ++ line :: [last], e.WellFormed :=
    List.forall_mem_cons.mpr ⟨Excerpt.wellFormed_ofText _,
      List.forall_mem_singleton.mpr (Excerpt.wellFormed_ofText _)⟩
  have accepts : j.Accepts w.scope line := by
    have unknown : w.scope.lookup (nameOf line).text = .error "BUFF".toList := by decide +kernel
    refine ⟨by decide, by decide, ?_⟩
    intro old found
    rw [unknown] at found
    cases found
  obtain ⟨w₁, w₂, w₃, v, t, ran₁, ran₂, ran₃, evaluated, _, readable⟩ :=
    define_readable pos wf size
  cases ran₁
  obtain ⟨_, reads⟩ := readable accepts
  have value : (match (j.evaluate (expressionOf line)).run w with
      | .ok v _ => some v
      | .error _ _ => none) = some 5 := by decide +kernel
  rw [evaluated] at value
  obtain rfl : v = 5 := Option.some.inj value
  refine ⟨pos, wf, size, accepts, w₂, w₃, ran₂, ran₃, ?_⟩
  have plain : ∀ c ∈ e.text, Text.isBlank c = false := by
    have none : e.text.any Text.isBlank = false := by decide
    simpa only [List.any_eq_false, Bool.not_eq_true] using none
  intro runs
  exact reads runs e (Excerpt.wellFormed_ofText _) (by decide) plain (by decide) (by decide)

end AsmOperand
