import AsmOperand.Proofs.Placement
import AsmOperand.Proofs.Work

/-!
# Work without its places

Where a definition stands on its line, and what else the line holds, shows in the places of
diagnostics and sources only. Work on definitions with the same texts comes to the same in
everything else: the names and their values, the problems in their order, the log, the faults. The
workplaces need not be the same to begin with if they differ in places alone.

The two are compared by taking all places away. Nothing is said here about where the places are.
-/

namespace AsmOperand

/-- The record without its place. -/
def Record.unplaced : Record → Record
  | .message level text _ => .message level text .nowhere
  | .step lhs op rhs => .step lhs op rhs

def Report.unplaced (r : Report) : Report := { r with excerpts := [] }

def Ledger.unplaced (l : Ledger) : Ledger := { l with reports := l.reports.map Report.unplaced }

def Desk.unplaced (d : Desk) : Desk := ⟨d.a.unplaced, d.b.unplaced, d.log.map Record.unplaced⟩

def Symbol.unplaced (s : Symbol) : Symbol := { s with source := none }

def Table.unplaced (t : Table) : Table := { t with symbols := t.symbols.map Symbol.unplaced }

/-- The scope without the sources of the symbols that its innermost table has. -/
def Scope.unplaced (s : Scope) : Scope := { s with inner := s.inner.unplaced }

def Workplace.unplaced (w : Workplace) : Workplace := ⟨w.scope.unplaced, w.desk.unplaced, w.reads⟩

theorem Workplace.unplaced_eq_iff {w w' : Workplace} : w'.unplaced = w.unplaced ↔
    w'.scope.unplaced = w.scope.unplaced ∧ w'.desk.unplaced = w.desk.unplaced ∧
      w'.reads = w.reads := by
  simp only [unplaced, mk.injEq]

namespace Desk

theorem unplaced_write (d : Desk) (r : Record) :
    (d.write r).unplaced = d.unplaced.write r.unplaced := by
  simp only [write, unplaced, Array.map_push]

theorem ledger_unplaced (d : Desk) (name : Ledger.Name) :
    d.unplaced.ledger name = (d.ledger name).unplaced := by
  cases name <;> rfl

theorem unplaced_setLedger (d : Desk) (name : Ledger.Name) (l : Ledger) :
    (d.setLedger name l).unplaced = d.unplaced.setLedger name l.unplaced := by
  cases name <;> rfl

theorem unplaced_error (d : Desk) (name : Ledger.Name) (p : Problem) (place : Place) :
    (d.error name p place).unplaced = d.unplaced.error name p .nowhere := by
  have counted (l : Ledger) : (l.addError ⟨p, place.main?.toList⟩).unplaced =
      l.unplaced.addError ⟨p, []⟩ := by
    simp only [Ledger.addError, Ledger.unplaced, Array.map_push, Report.unplaced]
  rw [error, unplaced_setLedger, counted, ← ledger_unplaced, unplaced_write]
  rfl

/-- Events are entered alike, wherever they are shown. -/
theorem unplaced_enterAll (name : Ledger.Name) (events : Array Event) (whole whole' : Excerpt)
    {d d' : Desk} (same : d'.unplaced = d.unplaced) :
    (d'.enterAll name (events.map (Event.placed whole'))).unplaced =
      (d.enterAll name (events.map (Event.placed whole))).unplaced := by
  obtain ⟨events⟩ := events
  simp only [enterAll, List.map_toArray, List.foldl_toArray, List.foldl_map]
  induction events generalizing d d' with
  | nil => exact same
  | cons event rest ih =>
    apply ih
    cases event with
    | problem p shown =>
      simp only [Event.placed, enter]
      rw [unplaced_error, unplaced_error, same]
    | combined lhs op rhs =>
      simp only [Event.placed, enter]
      rw [unplaced_write, unplaced_write, same]

end Desk

namespace Table

/-- The names of the table with their values. -/
def bindings (t : Table) : Bindings := t.symbols.map fun s => (s.name, s.value)

theorem bindings_unplaced (t : Table) : t.unplaced.bindings = t.bindings := by
  rw [bindings, unplaced, List.map_map]
  rfl

theorem find?_unplaced (t : Table) (name : Text) :
    t.unplaced.find? name = (t.find? name).map Symbol.unplaced := by
  rw [find?, unplaced, List.find?_map]
  rfl

theorem unplaced_put (t : Table) (s : Symbol) :
    (t.put s).unplaced = t.unplaced.put s.unplaced := by
  have known : (t.unplaced.find? s.unplaced.name).isSome = (t.find? s.name).isSome := by
    rw [find?_unplaced, Option.isSome_map]
    rfl
  rw [put, put, known]
  by_cases found : (t.find? s.name).isSome = true
  · rw [if_pos found, if_pos found]
    simp only [unplaced, List.map_map, mk.injEq, true_and]
    apply List.map_congr_left
    intro old _
    by_cases same : old.name = s.name
    · simp [Symbol.unplaced, same]
    · simp [Symbol.unplaced, same]
  · rw [if_neg found, if_neg found]
    simp only [unplaced, List.map_append, List.map_cons, List.map_nil]

end Table

namespace Scope

theorem lookup_unplaced (s : Scope) (name : Text) : s.unplaced.lookup name = s.lookup name := by
  have found := s.inner.find?_unplaced (s.inner.clip name)
  simp only [lookup, lookupIn]
  rw [show s.unplaced.inner.find? (s.unplaced.inner.clip name) = _ from found]
  cases s.inner.find? (s.inner.clip name) with
  | none => rfl
  | some symbol => rfl

theorem contains_unplaced (s : Scope) (name : Text) :
    s.unplaced.contains name = s.contains name := by
  have found := s.inner.find?_unplaced (s.inner.clip name)
  simp only [contains, containsIn]
  rw [show s.unplaced.inner.find? (s.unplaced.inner.clip name) = _ from found, Option.isSome_map]
  rfl

/-- A definition comes to the same for every source. -/
theorem define_unplaced (s : Scope) (name : Text) (value : Int) (source : Option Excerpt) :
    s.unplaced.define name value none =
      match s.define name value source with
      | .ok (kept, later) => .ok (kept, later.unplaced)
      | .error r => .error r.unplaced := by
  have clipped : s.unplaced.inner.clip name = s.inner.clip name := rfl
  simp only [define, contains_unplaced, clipped]
  by_cases known : s.contains (s.inner.clip name) = true
  · have nowhere : s.unplaced.inner.sourceOf (s.inner.clip name) = none := by
      show s.inner.unplaced.sourceOf _ = none
      rw [Table.sourceOf, Table.find?_unplaced]
      cases s.inner.find? (s.inner.clip name) with
      | none => rfl
      | some symbol => rfl
    rw [if_pos known, if_pos known, nowhere]
    rfl
  · rw [if_neg known, if_neg known]
    simp only [unplaced, Table.unplaced_put]
    rfl

end Scope

/-- The end of some work without its places. -/
def unplacedEnd {α : Type} :
    EStateM.Result Fault Workplace α → EStateM.Result Fault Workplace α
  | .ok a w => .ok a w.unplaced
  | .error f w => .error f w.unplaced

/-- The two come to the same but for places, and so they do where places differ already. -/
def Matches {α : Type} (m m' : Work α) : Prop :=
  ∀ w w' : Workplace, w'.unplaced = w.unplaced → unplacedEnd (m'.run w') = unplacedEnd (m.run w)

namespace Matches

variable {α β : Type}

theorem pure (a : α) : Matches (pure a) (pure a) := by
  intro w w' same
  exact congrArg (EStateM.Result.ok a) same

theorem bind {m m' : Work α} {f f' : α → Work β} (first : Matches m m')
    (second : ∀ a, Matches (f a) (f' a)) : Matches (m >>= f) (m' >>= f') := by
  intro w w' same
  have here := first w w' same
  rw [EStateM.run_bind, EStateM.run_bind]
  cases ends : m.run w with
  | ok a v =>
    cases ends' : m'.run w' with
    | ok a' v' =>
      rw [ends, ends'] at here
      simp only [unplacedEnd, EStateM.Result.ok.injEq] at here
      obtain ⟨rfl, next⟩ := here
      exact second _ v v' next
    | error f' v' =>
      rw [ends, ends'] at here
      cases here
  | error f v =>
    cases ends' : m'.run w' with
    | ok a' v' =>
      rw [ends, ends'] at here
      cases here
    | error f' v' =>
      rw [ends, ends'] at here
      simp only [unplacedEnd, EStateM.Result.error.injEq] at here ⊢
      exact here

/-- What comes to an end, does so in both. -/
theorem ok {m m' : Work α} (h : Matches m m') {w w' later : Workplace}
    (same : w'.unplaced = w.unplaced) {a : α} (ran : m.run w = .ok a later) :
    ∃ later', m'.run w' = .ok a later' ∧ later'.unplaced = later.unplaced := by
  have ends := h w w' same
  rw [ran] at ends
  cases ran' : m'.run w' with
  | ok b later' =>
    rw [ran'] at ends
    simp only [unplacedEnd, EStateM.Result.ok.injEq] at ends
    obtain ⟨rfl, places⟩ := ends
    exact ⟨later', rfl, places⟩
  | error f later' =>
    rw [ran'] at ends
    cases ends

end Matches

namespace Job

variable (j : Job)

theorem error_matches (p : Problem) (place place' : Place) :
    Matches (j.error p place) (j.error p place') := by
  intro w w' same
  obtain ⟨scopes, desks, reads⟩ := Workplace.unplaced_eq_iff.mp same
  have ends : ({ w' with desk := w'.desk.error j.ledger p place' } : Workplace).unplaced =
      ({ w with desk := w.desk.error j.ledger p place } : Workplace).unplaced := by
    rw [Workplace.unplaced_eq_iff, Desk.unplaced_error, Desk.unplaced_error, desks]
    exact ⟨scopes, rfl, reads⟩
  exact congrArg (EStateM.Result.ok ()) ends

/-- Operands with the same text are evaluated alike. -/
theorem evaluate_matches {e e' : Excerpt} (wf : e.WellFormed) (wf' : e'.WellFormed)
    (text : e'.text = e.text) : Matches (j.evaluate e) (j.evaluate e') := by
  intro w w' same
  obtain ⟨scopes, desks, reads⟩ := Workplace.unplaced_eq_iff.mp same
  have lookups : w'.scope.lookup? = w.scope.lookup? := by
    funext name
    rw [Scope.lookup?, Scope.lookup?, ← Scope.lookup_unplaced, scopes, Scope.lookup_unplaced]
  have envs : j.env w'.scope = j.env w.scope := by rw [env, env, lookups]
  have placed {e : Excerpt} (wf : e.WellFormed) :
      ((j.env w.scope).evaluate e).run ⟨#[], w.reads⟩ =
        placedEnd e (((j.env w.scope).evaluate (.ofText e.text)).run ⟨#[], w.reads⟩) := by
    have follows := (j.env w.scope).evaluate_follows wf ⟨#[], w.reads⟩
    rwa [Trace.placed_empty] at follows
  show unplacedEnd (j.evaluate e' w') = unplacedEnd (j.evaluate e w)
  rw [evaluate, evaluate, envs, reads, placed wf', placed wf, text]
  cases ((j.env w.scope).evaluate (.ofText e.text)).run ⟨#[], w.reads⟩ with
  | ok v t =>
    simp only [placedEnd, unplacedEnd, Trace.placed, Workplace.unplaced, scopes,
      Desk.unplaced_enterAll j.ledger t.events e e' desks]
  | error f t =>
    simp only [placedEnd, unplacedEnd, Trace.placed, Workplace.unplaced, scopes,
      Desk.unplaced_enterAll j.ledger t.events e e' desks]

/-- What binding a name comes to is seen without places. -/
theorem unplacedEnd_bind (name : Text) (value : Int) (source : Excerpt) (w : Workplace) :
    unplacedEnd ((j.bind name value source).run w) = .ok ()
      (match w.unplaced.scope.define name value none with
        | .error r =>
          { w.unplaced with desk := w.unplaced.desk.error j.ledger r.problem .nowhere }
        | .ok (kept, scope) => { w.unplaced with
            scope := scope
            desk := w.unplaced.desk.info s!"{String.ofList kept} = {value}" .nowhere }) := by
  rw [show w.unplaced.scope = w.scope.unplaced from rfl,
    w.scope.define_unplaced name value (some source), bind, EStateM.run_bind, EStateM.run_get]
  cases defined : w.scope.define name value (some source) with
  | error r =>
    simp only [defined]
    have entered := w.desk.unplaced_error j.ledger r.problem (.excerpts (r.excerpts.map some))
    exact congrArg (fun d => EStateM.Result.ok () (Workplace.mk w.scope.unplaced d w.reads)) entered
  | ok result =>
    obtain ⟨kept, scope⟩ := result
    simp only [defined]
    have logged := w.desk.unplaced_write
      (.message .info s!"{String.ofList kept} = {value}" (.excerpt source))
    exact congrArg (fun d => EStateM.Result.ok () (Workplace.mk scope.unplaced d w.reads)) logged

theorem bind_matches (name : Text) (value : Int) (source source' : Excerpt) :
    Matches (j.bind name value source) (j.bind name value source') := by
  intro w w' same
  rw [unplacedEnd_bind, unplacedEnd_bind, same]

/-- Definitions with the same text come to the same but for places. -/
theorem define_matches {e e' : Excerpt} (wf : e.WellFormed) (wf' : e'.WellFormed)
    (text : e'.text = e.text) : Matches (j.define e) (j.define e') := by
  have name : (nameOf e').text = (nameOf e).text := by
    rw [text_nameOf wf', text_nameOf wf, text]
  have expression : (expressionOf e').text = (expressionOf e).text := by
    rw [text_expressionOf wf', text_expressionOf wf, text]
  rw [define_eq j (Excerpt.isBackward_eq_false wf), define_eq j (Excerpt.isBackward_eq_false wf'),
    name, expression]
  by_cases missing : (expressionOf e).text.isAllBlank = true
  · rw [if_pos missing, if_pos missing]
    exact j.error_matches _ _ _
  rw [if_neg missing, if_neg missing]
  by_cases bad : (!isValidName (some j.settings.delimiter) (nameOf e).text) = true
  · rw [if_pos bad, if_pos bad]
    exact j.error_matches _ _ _
  rw [if_neg bad, if_neg bad]
  apply Matches.bind (j.evaluate_matches (wellFormed_expressionOf wf)
    (wellFormed_expressionOf wf') expression)
  intro value
  exact j.bind_matches _ value _ _

/-- The two stand on their lines and have the same text. -/
structure SameText (e e' : Excerpt) : Prop where
  wellFormed : e.WellFormed
  wellFormed' : e'.WellFormed
  text : e'.text = e.text

/-- Any number of definitions with the same texts. -/
theorem defineAll_matches {lines lines' : List Excerpt}
    (same : List.Forall₂ SameText lines lines') :
    Matches (j.defineAll lines) (j.defineAll lines') := by
  induction same with
  | nil => exact Matches.pure ()
  | cons here _ ih =>
    rw [defineAll, defineAll]
    apply Matches.bind (j.define_matches here.wellFormed here.wellFormed' here.text)
    intro _
    exact ih

end Job

end AsmOperand
