import AsmOperand.Proofs.Definitions
import AsmOperand.Proofs.Diagnostics

/-!
# Definitions, line by line

Each line of a run over definitions either stores one symbol and is taken, or is refused and leaves
the scope as it is. A refusal ends with an error that has no kind, and nothing else does: problems
of the expression all have one, and are entered before. So the lines can be counted afterwards, by
the symbols that are new and the errors without a kind.

The evaluation of an expression sees what the lines before it have stored. The names of the scope
may be cut to another size than those of the job's settings, as long as something is left of them.
-/

namespace AsmOperand

/-- The scope with further symbols in its innermost table. -/
def Scope.extend (s : Scope) (added : List Symbol) : Scope :=
  { s with inner := { s.inner with symbols := s.inner.symbols ++ added } }

namespace Scope

theorem extend_nil (s : Scope) : s.extend [] = s := by
  simp only [extend, List.append_nil]

theorem extend_extend (s : Scope) (added more : List Symbol) :
    (s.extend added).extend more = s.extend (added ++ more) := by
  simp only [extend, List.append_assoc]

theorem store_eq_extend {s : Scope} {name : Text} (fresh : ∀ v, s.lookup name ≠ .ok v) (value : Int)
    (source : Option Excerpt) :
    s.store name value source = s.extend [⟨s.inner.clip name, value, source⟩] := by
  simp only [store, Table.put, find?_eq_none_of_lookup fresh, Option.isSome_none,
    Bool.false_eq_true, if_false, extend]

end Scope

/-- The reports that the events of an evaluation make. -/
def reportsOf (events : List Event) : List Report := (problemsOf events).map fun q => ⟨q.1, [q.2]⟩

/-- How many of the reports have no kind. -/
def plainCount (rs : List Report) : Nat := rs.countP fun r => r.problem.kind?.isNone

theorem plainCount_append (rs ss : List Report) :
    plainCount (rs ++ ss) = plainCount rs + plainCount ss := List.countP_append

theorem plainCount_eq_zero {rs : List Report} (kinds : ∀ r ∈ rs, r.problem.kind?.isSome = true) :
    plainCount rs = 0 := by
  apply List.countP_eq_zero.mpr
  intro r hr
  simpa using Option.ne_none_iff_isSome.mpr (kinds r hr)

/-- Problems that an operand is shown to have are of some kind. -/
theorem kind?_of_mem_reportsOf {env : Env} {whole : Excerpt} {events : List Event}
    (points : ∀ e ∈ events, e.Points env whole) {r : Report} (h : r ∈ reportsOf events) :
    r.problem.kind?.isSome = true := by
  obtain ⟨⟨p, shown⟩, hq, rfl⟩ := List.mem_map.mp h
  obtain ⟨event, he, problem⟩ := List.mem_filterMap.mp hq
  cases event with
  | combined lhs op rhs => cases problem
  | problem p' shown' =>
    cases problem
    have fits := (points _ he).2
    cases kind : p.kind? with
    | some kind => rfl
    | none =>
      rw [Problem.ShownBy, kind] at fits
      exact fits.elim

namespace Job

/-- The definition is taken. The name goes up to the first blank and is cut to what the table keeps,
and its value is that of the expression. The problems of the expression are all that is entered. -/
structure Stores (j : Job) (line : Excerpt) (w later : Workplace) (o : Outcome Int) : Prop where
  accepts : j.Accepts w.scope line
  evaluated : Yields ((j.env w.scope).evaluate (expressionOf line)) w.reads o
  scope : later.scope = w.scope.extend [⟨(line.text.takeWhile fun c => !Text.isBlank c).take
    w.scope.inner.symbolSize.toNat, o.value, some (nameOf line)⟩]
  reads : later.reads = o.reads
  entered : (w.desk.ledger j.ledger).Adds (reportsOf o.events) (later.desk.ledger j.ledger)
  kinds : ∀ r ∈ reportsOf o.events, r.problem.kind?.isSome = true

/-- Why a definition is refused, with the reports on its expression and the one that comes last. In
the first two cases nothing is evaluated. -/
inductive Refuses (j : Job) (line : Excerpt) (w later : Workplace) :
    List Report → Report → Prop where
  | missing (blank : (expressionOf line).text.isAllBlank = true)
    (after : later = { w with
      desk := w.desk.error j.ledger (.missingValue (nameOf line).text) (.excerpt line.endpoint) }) :
    Refuses j line w later [] ⟨.missingValue (nameOf line).text, [line.endpoint]⟩
  | bad (present : (expressionOf line).text.isAllBlank = false)
    (invalid : isValidName (some j.settings.delimiter) (nameOf line).text = false)
    (after : later = { w with
      desk := w.desk.error j.ledger (.badName (nameOf line).text) (.excerpt (nameOf line)) }) :
    Refuses j line w later [] ⟨.badName (nameOf line).text, [nameOf line]⟩
  | known {o : Outcome Int} {old : Int}
    (present : (expressionOf line).text.isAllBlank = false)
    (valid : isValidName (some j.settings.delimiter) (nameOf line).text = true)
    (evaluated : Yields ((j.env w.scope).evaluate (expressionOf line)) w.reads o)
    (has : w.scope.lookup (nameOf line).text = .ok old) (reads : later.reads = o.reads) :
    Refuses j line w later (reportsOf o.events)
      ⟨.redefined (w.scope.inner.clip (nameOf line).text), [nameOf line]⟩

/-- The definition is refused. The scope is as before, and of what is entered only the last error
has no kind. -/
structure Skips (j : Job) (line : Excerpt) (w later : Workplace) (earlier : List Report)
    (last : Report) : Prop where
  cause : j.Refuses line w later earlier last
  scope : later.scope = w.scope
  entered : (w.desk.ledger j.ledger).Adds (earlier ++ [last]) (later.desk.ledger j.ledger)
  kinds : ∀ r ∈ earlier, r.problem.kind?.isSome = true
  plain : last.problem.kind? = none

/-- One of the two becomes of every definition. -/
def Settles (j : Job) (line : Excerpt) (w later : Workplace) : Prop :=
  (∃ o, j.Stores line w later o) ∨ ∃ earlier last, j.Skips line w later earlier last

/-- A table that has got a symbol is not the same as before. -/
theorem Stores.not_skips {j : Job} {line : Excerpt} {w later : Workplace} {o : Outcome Int}
    (stores : j.Stores line w later o) {earlier : List Report} {last : Report} :
    ¬j.Skips line w later earlier last := by
  intro skips
  have same := congrArg (·.inner.symbols.length) (stores.scope.symm.trans skips.scope)
  simp [Scope.extend] at same

/-- What is new at a workplace: symbols of the innermost table and errors of one ledger. -/
structure Gains (name : Ledger.Name) (w : Workplace) (added : List Symbol) (more : List Report)
    (later : Workplace) : Prop where
  scope : later.scope = w.scope.extend added
  entered : (w.desk.ledger name).Adds more (later.desk.ledger name)

theorem Gains.trans {name : Ledger.Name} {w w₁ w₂ : Workplace} {added added' : List Symbol}
    {more more' : List Report} (first : Gains name w added more w₁)
    (second : Gains name w₁ added' more' w₂) :
    Gains name w (added ++ added') (more ++ more') w₂ :=
  ⟨by rw [second.scope, first.scope, Scope.extend_extend], first.entered.trans second.entered⟩

/-- A line is counted once, by its symbol or by its error without a kind. -/
theorem Settles.gains {j : Job} {line : Excerpt} {w later : Workplace}
    (settles : j.Settles line w later) :
    ∃ added more, Gains j.ledger w added more later ∧ added.length + plainCount more = 1 := by
  rcases settles with ⟨o, stores⟩ | ⟨earlier, last, skips⟩
  · refine ⟨_, _, ⟨stores.scope, stores.entered⟩, ?_⟩
    rw [plainCount_eq_zero stores.kinds, List.length_singleton]
  · refine ⟨[], _, ⟨?_, skips.entered⟩, ?_⟩
    · rw [skips.scope, Scope.extend_nil]
    · have one : plainCount [last] = 1 := by simp [plainCount, skips.plain]
      rw [plainCount_append, plainCount_eq_zero skips.kinds, one, List.length_nil]

theorem defineAll_append (j : Job) (before after : List Excerpt) :
    j.defineAll (before ++ after) = (do
      j.defineAll before
      j.defineAll after) := by
  induction before with
  | nil => rw [List.nil_append, defineAll, pure_bind]
  | cons line rest ih => simp only [List.cons_append, defineAll, ih, bind_assoc]

/-- With its expression evaluated, a definition is taken unless the name has a value already. -/
theorem bind_settles {j : Job} {line : Excerpt} (wf : line.WellFormed) {w : Workplace}
    (sized : w.scope.inner.Sized) (present : (expressionOf line).text.isAllBlank = false)
    (valid : isValidName (some j.settings.delimiter) (nameOf line).text = true) {o : Outcome Int}
    (yields : Yields ((j.env w.scope).evaluate (expressionOf line)) w.reads o)
    (kinds : ∀ r ∈ reportsOf o.events, r.problem.kind?.isSome = true) :
    ∃ later, (j.bind (nameOf line).text o.value (nameOf line)).run { w with
        desk := w.desk.enterAll j.ledger o.events.toArray, reads := o.reads } = .ok () later ∧
      j.Settles line w later := by
  have entered := w.desk.adds_enterAll j.ledger j.ledger o.events
  rw [if_pos rfl] at entered
  rw [bind, EStateM.run_bind, EStateM.run_get]
  simp only [Scope.define_eq sized]
  cases known : w.scope.lookup (nameOf line).text with
  | ok old =>
    let kept := w.scope.inner.clip (nameOf line).text
    have refused := (w.desk.enterAll j.ledger o.events.toArray).adds_error_self j.ledger
      (.redefined kept)
      (.excerpts (([some (nameOf line), w.scope.inner.sourceOf kept].filterMap id).map some))
    refine ⟨_, rfl, .inr ⟨_, _, .known present valid yields known rfl, rfl, ?_, kinds, rfl⟩⟩
    exact entered.trans refused
  | error key =>
    have fresh (v : Int) : w.scope.lookup (nameOf line).text ≠ .ok v := by simp [known]
    refine ⟨_, rfl, .inl ⟨o, ⟨present, valid, fresh⟩, yields, ?_, rfl, ?_, kinds⟩⟩
    · rw [← text_nameOf wf, ← Table.clip_eq_take sized]
      exact Scope.store_eq_extend fresh o.value _
    · simp only [Desk.info, Desk.ledger_write]
      exact entered

section Positive
variable {j : Job} (pos : j.settings.width.Positive)
include pos

/-- A definition on its line is worked through and either taken or refused. -/
theorem define_settles {line : Excerpt} (wf : line.WellFormed) {w : Workplace}
    (sized : w.scope.inner.Sized) :
    ∃ later, (j.define line).run w = .ok () later ∧ j.Settles line w later := by
  rw [define_eq j (Excerpt.isBackward_eq_false wf)]
  by_cases missing : (expressionOf line).text.isAllBlank = true
  · have entered := w.desk.adds_error_self j.ledger (.missingValue (nameOf line).text)
      (.excerpt line.endpoint)
    rw [if_pos missing]
    exact ⟨_, rfl, .inr ⟨_, _, .missing missing rfl, rfl, entered, List.forall_mem_nil _, rfl⟩⟩
  have present : (expressionOf line).text.isAllBlank = false := by simpa using missing
  rw [if_neg missing]
  by_cases bad : (!isValidName (some j.settings.delimiter) (nameOf line).text) = true
  · have entered := w.desk.adds_error_self j.ledger (.badName (nameOf line).text)
      (.excerpt (nameOf line))
    rw [if_pos bad]
    refine ⟨_, rfl, .inr ⟨_, _, .bad present ?_ rfl, rfl, entered, List.forall_mem_nil _, rfl⟩⟩
    simpa using bad
  have valid : isValidName (some j.settings.delimiter) (nameOf line).text = true := by
    simpa using bad
  rw [if_neg bad]
  have ends : Ends j.settings.width.Holds (Event.Points (j.env w.scope) (expressionOf line))
      ((j.env w.scope).evaluate (expressionOf line)) :=
    Env.evaluate_points pos (wellFormed_expressionOf wf)
  obtain ⟨o, yields, _, points⟩ := ends w.reads
  have kinds (r : Report) (hr : r ∈ reportsOf o.events) := kind?_of_mem_reportsOf points hr
  rw [EStateM.run_bind, run_evaluate yields]
  exact bind_settles wf sized present valid yields kinds

/-- Definitions on their lines are all worked through, and each counts once. -/
theorem defineAll_gains {lines : List Excerpt} (wf : ∀ line ∈ lines, line.WellFormed)
    {w : Workplace} (sized : w.scope.inner.Sized) :
    ∃ later added more, (j.defineAll lines).run w = .ok () later ∧
      Gains j.ledger w added more later ∧ added.length + plainCount more = lines.length := by
  induction lines generalizing w with
  | nil =>
    exact ⟨w, [], [], rfl, ⟨w.scope.extend_nil.symm, .refl _⟩, rfl⟩
  | cons line rest ih =>
    obtain ⟨here, others⟩ := List.forall_mem_cons.mp wf
    obtain ⟨next, defined, settles⟩ := define_settles pos here sized
    obtain ⟨added, more, gains, one⟩ := settles.gains
    have sizedNext : next.scope.inner.Sized := by
      rw [gains.scope]
      exact sized
    obtain ⟨later, added', more', worked, gains', counted⟩ := ih others sizedNext
    refine ⟨later, _, _, ?_, gains.trans gains', ?_⟩
    · rw [defineAll, EStateM.run_bind, defined]
      exact worked
    · rw [plainCount_append, List.length_append, List.length_cons]
      omega

/-- Definitions on their lines are all worked through. Each of them either stores a symbol or is
refused, and not both, at the workplace that the lines before it have left. No value is lost or
changed, and the new symbols and the errors without a kind are together as many as the lines. -/
theorem defineAll_settles {lines : List Excerpt} (wf : ∀ line ∈ lines, line.WellFormed)
    {w : Workplace} (sized : w.scope.inner.Sized) :
    ∃ later added more, (j.defineAll lines).run w = .ok () later ∧
      Gains j.ledger w added more later ∧ added.length + plainCount more = lines.length ∧
      (∀ name v, w.scope.lookup name = .ok v → later.scope.lookup name = .ok v) ∧
      ∀ before line after, lines = before ++ line :: after →
        ∃ w₁ w₂, (j.defineAll before).run w = .ok () w₁ ∧ (j.define line).run w₁ = .ok () w₂ ∧
          (j.defineAll after).run w₂ = .ok () later ∧
          ((∃ o, j.Stores line w₁ w₂ o) ∧ ¬(∃ earlier last, j.Skips line w₁ w₂ earlier last) ∨
            (∃ earlier last, j.Skips line w₁ w₂ earlier last) ∧ ¬∃ o, j.Stores line w₁ w₂ o) := by
  obtain ⟨later, added, more, ran, gains, counted⟩ := defineAll_gains pos wf sized
  have continues := Scope.continues_of_grows sized ((j.defineAll_grows lines).of_ok ran).scope
  refine ⟨later, added, more, ran, gains, counted, continues.values, ?_⟩
  rintro before line after rfl
  obtain ⟨wfBefore, wfLine, wfAfter⟩ : (∀ e ∈ before, e.WellFormed) ∧ line.WellFormed ∧
      ∀ e ∈ after, e.WellFormed := by
    simpa only [List.forall_mem_append, List.forall_mem_cons] using wf
  obtain ⟨w₁, ran₁, sized₁⟩ := defineAll_ok pos wfBefore sized
  obtain ⟨w₂, ran₂, settles⟩ := define_settles pos wfLine sized₁
  rw [defineAll_append, EStateM.run_bind, ran₁] at ran
  simp only [defineAll] at ran
  rw [EStateM.run_bind, ran₂] at ran
  refine ⟨w₁, w₂, ran₁, ran₂, ran, ?_⟩
  rcases settles with ⟨o, stores⟩ | ⟨earlier, last, skips⟩
  · refine .inl ⟨⟨o, stores⟩, ?_⟩
    rintro ⟨earlier, last, skips⟩
    exact stores.not_skips skips
  · refine .inr ⟨⟨earlier, last, skips⟩, ?_⟩
    rintro ⟨o, stores⟩
    exact stores.not_skips skips

end Positive

/-- Three lines store a symbol, one of them after a division by zero. The others have a bad name, no
value, and a name that is known by its first four characters. -/
theorem defineAll_settles_six :
    let j : Job := ⟨Settings.default, fun _ => 0, .a⟩
    let w : Workplace := { scope := ⟨⟨4, []⟩, [⟨8, [⟨"TWO".toList, 2, none⟩]⟩], []⟩ }
    let lines :=
      ["LONG_NAME TWO+3", "B/D 1", "EMPTY ", "ZERO 1/0", "LONGER X/0", "NEXT LONGISH"].map
        fun line => Excerpt.ofText line.toList
    j.settings.width.Positive ∧ (∀ line ∈ lines, line.WellFormed) ∧ w.scope.inner.Sized ∧
      ∃ later added more, (j.defineAll lines).run w = .ok () later ∧
        Gains j.ledger w added more later ∧ plainCount more = 3 ∧
        added.map (fun s => (String.ofList s.name, s.value)) =
          [("LONG", 5), ("ZERO", 0), ("NEXT", 5)] := by
  intro j w lines
  have pos : j.settings.width.Positive := by decide
  have sized : w.scope.inner.Sized := by decide
  have wf : ∀ line ∈ lines, line.WellFormed := by
    intro line mem
    obtain ⟨t, _, rfl⟩ := List.mem_map.mp mem
    exact Excerpt.wellFormed_ofText _
  obtain ⟨later, added, more, ran, gains, counted, _⟩ := defineAll_settles pos wf sized
  have stored : (finalState ((j.defineAll lines).run w)).scope.inner.symbols.map
      (fun s => (String.ofList s.name, s.value)) = [("LONG", 5), ("ZERO", 0), ("NEXT", 5)] := by
    decide +kernel
  simp only [ran, finalState, gains.scope] at stored
  have three : added.length = 3 := by
    simpa [w, Scope.extend] using congrArg List.length stored
  have all : lines.length = 6 := rfl
  exact ⟨pos, wf, sized, later, added, more, ran, gains, by omega, stored⟩

end Job

end AsmOperand
