import AsmOperand.Proofs.Outcomes
import AsmOperand.Proofs.Passes

/-!
# How evaluations end

At a width below zero an evaluation may be broken off, and what it wrote until then stays. An
`Ending` tells what comes of an evaluation in either case, and `EndsAs` from which number of
readings on. It adds to what has been written before and does not look at it.

The endings of all steps of a pass are told here, at every width. The excerpt that shows an
operator has no part in what the operator comes to.
-/

namespace AsmOperand

/-- What comes of an evaluation: a value or a fault, what it writes, and the number of readings in
the end. -/
structure Ending (α : Type) where
  result : Except Fault α
  events : List Event
  reads : Nat

/-- The end of a run that found a trace when it began. -/
def Ending.behind {α : Type} (x : Ending α) (t : Trace) : EStateM.Result Fault Trace α :=
  match x.result with
  | .ok a => .ok a ⟨(t.events.toList ++ x.events).toArray, x.reads⟩
  | .error f => .error f ⟨(t.events.toList ++ x.events).toArray, x.reads⟩

/-- After `k` readings of the location counter the evaluation ends as `x` says. -/
def EndsAs {α : Type} (m : Evaluation α) (k : Nat) (x : Ending α) : Prop :=
  ∀ t : Trace, t.reads = k → m.run t = x.behind t

namespace EndsAs

variable {α β : Type}

theorem pure (a : α) (k : Nat) : EndsAs (pure a) k ⟨.ok a, [], k⟩ := by
  rintro t rfl
  simp [Ending.behind]

theorem throw (f : Fault) (k : Nat) : EndsAs (throw f : Evaluation α) k ⟨.error f, [], k⟩ := by
  rintro t rfl
  simp only [Ending.behind, List.append_nil, Array.toArray_toList]
  rfl

theorem write (e : Event) (k : Nat) : EndsAs (Evaluation.write e) k ⟨.ok (), [e], k⟩ :=
  Yields.write e k

theorem report (p : Problem) (shown : Excerpt) (k : Nat) :
    EndsAs (Evaluation.report p shown) k ⟨.ok (), [.problem p shown], k⟩ :=
  write _ k

theorem readCounter (env : Env) (k : Nat) :
    EndsAs env.readCounter k ⟨.ok (env.counter k), [], k + 1⟩ :=
  Yields.readCounter env k

section Bind
variable {m : Evaluation α} {f : α → Evaluation β} {j k : Nat} {es : List Event}

theorem bind {a : α} {x : Ending β} (first : EndsAs m k ⟨.ok a, es, j⟩)
    (second : EndsAs (f a) j x) : EndsAs (m >>= f) k ⟨x.result, es ++ x.events, x.reads⟩ := by
  intro t ht
  have rest := second ⟨(t.events.toList ++ es).toArray, j⟩ rfl
  rw [EStateM.run_bind, first t ht]
  simpa [Ending.behind, List.append_assoc] using rest

/-- Nothing follows a fault. -/
theorem bind_error {e : Fault} (first : EndsAs m k ⟨.error e, es, j⟩) :
    EndsAs (m >>= f) k ⟨.error e, es, j⟩ := by
  intro t ht
  rw [EStateM.run_bind, first t ht]
  rfl

end Bind

/-- An evaluation has at most one ending. -/
theorem unique {m : Evaluation α} {k : Nat} {x y : Ending α} (hx : EndsAs m k x)
    (hy : EndsAs m k y) : x = y := by
  have run := (hx ⟨#[], k⟩ rfl).symm.trans (hy ⟨#[], k⟩ rfl)
  obtain ⟨r, es, n⟩ := x
  obtain ⟨r', es', n'⟩ := y
  cases r with
  | ok a =>
    cases r' with
    | ok a' => simpa [Ending.behind] using run
    | error f' => cases run
  | error f =>
    cases r' with
    | ok a' => cases run
    | error f' => simpa [Ending.behind] using run

end EndsAs

/-- What an evaluation comes to by itself, if it is not broken off. -/
def outcome? {α : Type} (m : Evaluation α) (k : Nat) : Option (Outcome α) :=
  match m.run ⟨#[], k⟩ with
  | .ok a t => some ⟨a, t.events.toList, t.reads⟩
  | .error _ _ => none

theorem EndsAs.eq_of_outcome? {α : Type} {m : Evaluation α} {k : Nat} {x : Ending α} {o : Outcome α}
    (ends : EndsAs m k x) (h : outcome? m k = some o) : x = ⟨.ok o.value, o.events, o.reads⟩ := by
  rw [outcome?, ends ⟨#[], k⟩ rfl] at h
  obtain ⟨result, events, reads⟩ := x
  cases result with
  | ok a =>
    obtain rfl := Option.some.inj h
    rfl
  | error f => cases h

/-- The evaluation comes to one result and at most one problem, whatever excerpt shows it. The
problem is not that a name is unknown. -/
def Computes (m : Excerpt → Evaluation Int) : Prop :=
  ∃ (result : Except Fault Int) (problem : Option Problem),
    (∀ name, problem ≠ some (.undefinedSymbol name)) ∧
      ∀ shown k, EndsAs (m shown) k ⟨result, problem.toList.map (.problem · shown), k⟩

/-- Nothing written says that a name is unknown. -/
def Ending.Known {α : Type} (x : Ending α) : Prop :=
  ∀ name shown, Event.problem (.undefinedSymbol name) shown ∉ x.events

/-- The evaluation comes to an end and asks for no name that is unknown. -/
def Knows {α : Type} (m : Evaluation α) : Prop :=
  ∀ k, ∃ x, EndsAs m k x ∧ x.Known

namespace Knows

variable {α β : Type}

theorem pure (a : α) : Knows (pure a) :=
  fun k => ⟨_, EndsAs.pure a k, fun _ _ => List.not_mem_nil⟩

theorem throw (f : Fault) : Knows (throw f : Evaluation α) :=
  fun k => ⟨_, EndsAs.throw f k, fun _ _ => List.not_mem_nil⟩

theorem report {p : Problem} (other : ∀ name, p ≠ .undefinedSymbol name) (shown : Excerpt) :
    Knows (Evaluation.report p shown) := by
  intro k
  refine ⟨_, EndsAs.report p shown k, ?_⟩
  intro name place same
  cases List.mem_singleton.mp same
  exact other name rfl

theorem readCounter (env : Env) : Knows env.readCounter :=
  fun k => ⟨_, EndsAs.readCounter env k, fun _ _ => List.not_mem_nil⟩

theorem bind {m : Evaluation α} {f : α → Evaluation β} (first : Knows m)
    (second : ∀ a, Knows (f a)) : Knows (m >>= f) := by
  intro k
  obtain ⟨⟨result, es, j⟩, here, known⟩ := first k
  cases result with
  | error e => exact ⟨_, here.bind_error, known⟩
  | ok a =>
    obtain ⟨x, rest, knownRest⟩ := second a j
    refine ⟨_, here.bind rest, ?_⟩
    intro name shown asked
    rcases List.mem_append.mp asked with asked | asked
    · exact known name shown asked
    · exact knownRest name shown asked

end Knows

namespace Env

section Steps
variable (env : Env)

theorem wrap_ends (v : Int) : ∃ result, ∀ k, EndsAs (env.wrap v) k ⟨result, [], k⟩ := by
  simp only [wrap]
  cases env.settings.width.wrap? v with
  | some v => exact ⟨.ok v, EndsAs.pure v⟩
  | none => exact ⟨.error .negativeWidth, EndsAs.throw _⟩

theorem wrap_computes (v : Int) : Computes fun _ => env.wrap v := by
  obtain ⟨result, ends⟩ := env.wrap_ends v
  exact ⟨result, none, by simp, fun _ => ends⟩

theorem pure_computes (v : Int) : Computes fun _ => pure v :=
  ⟨.ok v, none, by simp, fun _ => EndsAs.pure v⟩

/-- After a problem the value is zero. -/
theorem zero_computes {p : Problem} (other : ∀ name, p ≠ .undefinedSymbol name) :
    Computes fun shown => do
      Evaluation.report p shown
      return 0 := by
  refine ⟨.ok 0, some p, fun name same => other name (Option.some.inj same), ?_⟩
  intro shown k
  exact EndsAs.bind (f := fun _ => pure 0) (EndsAs.report p shown k) (EndsAs.pure 0 k)

theorem shiftLeft_computes (lhs count : Int) : Computes (env.shiftLeft lhs count) := by
  simp only [Computes, shiftLeft]
  cases env.settings.width with
  | unlimited =>
    by_cases large : count > env.settings.shiftLimit
    · simp only [if_pos large]
      exact zero_computes (by simp)
    · simp only [if_neg large]
      exact env.wrap_computes _
  | bits n =>
    by_cases out : count ≥ n
    · simp only [if_pos out]
      exact pure_computes 0
    · simp only [if_neg out]
      exact env.wrap_computes _

/-- What is left of an operator once its step is written. -/
theorem combine_computes (op : Operator) (lhs rhs : Int) :
    ∃ m, Computes m ∧ ∀ shown, env.combine op lhs rhs shown = (do
      Evaluation.write (.combined lhs op rhs)
      m shown) := by
  cases op with
  | minus => exact ⟨_, env.wrap_computes _, fun _ => rfl⟩
  | plus => exact ⟨_, env.wrap_computes _, fun _ => rfl⟩
  | times => exact ⟨_, env.wrap_computes _, fun _ => rfl⟩
  | or => exact ⟨_, env.wrap_computes _, fun _ => rfl⟩
  | and => exact ⟨_, env.wrap_computes _, fun _ => rfl⟩
  | xor => exact ⟨_, env.wrap_computes _, fun _ => rfl⟩
  | complement => exact ⟨_, env.wrap_computes _, fun _ => rfl⟩
  | divide =>
    simp only [combine]
    cases quotient? lhs rhs with
    | some q => exact ⟨_, env.wrap_computes q, fun _ => rfl⟩
    | none => exact ⟨_, zero_computes (p := .divisionByZero) (by simp), fun _ => rfl⟩
  | modulo =>
    simp only [combine]
    cases remainder? lhs rhs with
    | some r => exact ⟨_, env.wrap_computes r, fun _ => rfl⟩
    | none => exact ⟨_, zero_computes (p := .divisionByZero) (by simp), fun _ => rfl⟩
  | shiftLeft =>
    by_cases negative : rhs < 0
    · simp only [combine, if_pos negative]
      exact ⟨_, zero_computes (p := .negativeShift rhs) (by simp), fun _ => rfl⟩
    · simp only [combine, if_neg negative]
      exact ⟨_, env.shiftLeft_computes lhs rhs, fun _ => rfl⟩
  | shiftRight =>
    by_cases negative : rhs < 0
    · simp only [combine, if_pos negative]
      exact ⟨_, zero_computes (p := .negativeShift rhs) (by simp), fun _ => rfl⟩
    · simp only [combine, if_neg negative]
      exact ⟨_, pure_computes _, fun _ => rfl⟩

/-- An operator writes its step and at most one problem. -/
theorem combine_ends (op : Operator) (lhs rhs : Int) :
    ∃ (result : Except Fault Int) (problem : Option Problem),
      (∀ name, problem ≠ some (.undefinedSymbol name)) ∧
        ∀ shown k, EndsAs (env.combine op lhs rhs shown) k
          ⟨result, .combined lhs op rhs :: problem.toList.map (.problem · shown), k⟩ := by
  obtain ⟨m, ⟨result, problem, other, ends⟩, combined⟩ := env.combine_computes op lhs rhs
  refine ⟨result, problem, other, ?_⟩
  intro shown k
  rw [combined]
  exact EndsAs.bind (f := fun _ => m shown) (EndsAs.write _ k) (ends shown k)

/-- What is written where something counts in part only. -/
def overlongEvents (overlong : Option Excerpt) : List Event :=
  overlong.toList.map fun e => .problem (.tooLong e.length env.settings.maxLength) e

theorem reportOverlong_ends (overlong : Option Excerpt) (k : Nat) :
    EndsAs (env.reportOverlong overlong) k ⟨.ok (), env.overlongEvents overlong, k⟩ := by
  cases overlong with
  | none => exact EndsAs.pure () k
  | some e => exact EndsAs.report _ e k

theorem wrap_knows (v : Int) : Knows (env.wrap v) := by
  obtain ⟨result, ends⟩ := env.wrap_ends v
  exact fun k => ⟨_, ends k, fun _ _ => List.not_mem_nil⟩

theorem combine_knows (op : Operator) (lhs rhs : Int) (shown : Excerpt) :
    Knows (env.combine op lhs rhs shown) := by
  obtain ⟨result, problem, other, ends⟩ := env.combine_ends op lhs rhs
  intro k
  refine ⟨_, ends shown k, ?_⟩
  intro name place asked
  cases problem with
  | none => cases List.mem_singleton.mp asked
  | some p =>
    obtain ⟨rfl, _⟩ : .undefinedSymbol name = p ∧ place = shown := by simpa using asked
    exact other name rfl

theorem reportOverlong_knows (overlong : Option Excerpt) : Knows (env.reportOverlong overlong) := by
  cases overlong with
  | none => exact Knows.pure ()
  | some e => exact Knows.report (by simp) e

theorem reportUnended_knows (unended : Option Excerpt) : Knows (reportUnended unended) := by
  cases unended with
  | none => exact Knows.pure ()
  | some e => exact Knows.report (by simp) e

/-- A name without a value leaves the value so far. -/
theorem lookup_ends_unknown {token : Excerpt} (value : Int)
    (unknown : env.symbols (token.text.take env.settings.symbolSize) = none) (k : Nat) :
    EndsAs (env.lookup token value) k ⟨.ok value,
      [.problem (.undefinedSymbol (token.text.take env.settings.symbolSize)) token], k⟩ := by
  simp only [lookup, unknown]
  exact EndsAs.bind (f := fun _ => pure value) (EndsAs.report _ token k) (EndsAs.pure value k)

end Steps

end Env

end AsmOperand
