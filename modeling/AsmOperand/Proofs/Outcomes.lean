import AsmOperand.Proofs.Operators

/-!
# Outcomes

An evaluation reads of its trace only how often the location counter has been read, and it adds to
the events without looking at them. `Yields` says what it comes to from a number of readings on.
Outcomes of a sequence are put together by `Yields.bind`; `Ends` speaks of one evaluation whose
outcome is not known in full, `Alike` of two. What can be said of one evaluation part by part is
said once for all such properties, those that are `OfParts`.
-/

namespace AsmOperand

/-- What an evaluation comes to: its value, what it writes, and the number of readings in the end.
-/
structure Outcome (α : Type) where
  value : α
  events : List Event
  reads : Nat
  deriving DecidableEq, Repr

/-- The trace that an outcome leaves behind. -/
def Outcome.after {α : Type} (o : Outcome α) (t : Trace) : Trace :=
  ⟨(t.events.toList ++ o.events).toArray, o.reads⟩

/-- After `k` readings of the location counter the evaluation comes to `o`. -/
def Yields {α : Type} (m : Evaluation α) (k : Nat) (o : Outcome α) : Prop :=
  ∀ t : Trace, t.reads = k → m.run t = .ok o.value (o.after t)

/-- The problem of an event, with the excerpt that shows it. -/
def Event.problem? : Event → Option (Problem × Excerpt)
  | .problem p shown => some (p, shown)
  | .combined _ _ _ => none

/-- The problems among some events, in order. -/
def problemsOf (events : List Event) : List (Problem × Excerpt) := events.filterMap Event.problem?

@[simp] theorem problemsOf_nil : problemsOf [] = [] := rfl

@[simp] theorem problemsOf_append (es fs : List Event) :
    problemsOf (es ++ fs) = problemsOf es ++ problemsOf fs := List.filterMap_append

@[simp] theorem problemsOf_problem (p : Problem) (shown : Excerpt) (es : List Event) :
    problemsOf (.problem p shown :: es) = (p, shown) :: problemsOf es := rfl

@[simp] theorem problemsOf_combined (lhs rhs : Int) (op : Operator) (es : List Event) :
    problemsOf (.combined lhs op rhs :: es) = problemsOf es := rfl

section Sequence
variable {α β : Type}

theorem Yields.pure (a : α) (k : Nat) : Yields (pure a) k ⟨a, [], k⟩ := by
  intro t ht
  simp [Outcome.after, ← ht]

theorem Yields.bind {m : Evaluation α} {f : α → Evaluation β} {a : α} {b : β} {j k n : Nat}
    {es fs : List Event} (first : Yields m k ⟨a, es, j⟩) (second : Yields (f a) j ⟨b, fs, n⟩) :
    Yields (m >>= f) k ⟨b, es ++ fs, n⟩ := by
  intro t ht
  rw [EStateM.run_bind, first t ht]
  have rest := second (Outcome.after ⟨a, es, j⟩ t) rfl
  simpa [Outcome.after, List.append_assoc] using rest

/-- An evaluation has at most one outcome. -/
theorem Yields.unique {m : Evaluation α} {k : Nat} {o r : Outcome α} (ho : Yields m k o)
    (hr : Yields m k r) : o = r := by
  have run := (ho ⟨#[], k⟩ rfl).symm.trans (hr ⟨#[], k⟩ rfl)
  obtain ⟨v, es, n⟩ := o
  obtain ⟨v', es', n'⟩ := r
  simpa [Outcome.after] using run

theorem Yields.write (e : Event) (k : Nat) : Yields (Evaluation.write e) k ⟨(), [e], k⟩ := by
  intro t ht
  have pushed : t.events.push e = (t.events.toList ++ [e]).toArray :=
    Array.ext' Array.toList_push
  simp [Outcome.after, Evaluation.write, ← ht, pushed]

theorem Yields.report (p : Problem) (shown : Excerpt) (k : Nat) :
    Yields (Evaluation.report p shown) k ⟨(), [.problem p shown], k⟩ :=
  Yields.write _ k

theorem Yields.readCounter (env : Env) (k : Nat) :
    Yields env.readCounter k ⟨env.counter k, [], k + 1⟩ := by
  rintro t rfl
  simp only [Outcome.after, List.append_nil, Array.toArray_toList]
  rfl

end Sequence

/-- The evaluation has an outcome, with a value as `Q` says and all events as `W` says. -/
def Ends {α : Type} (Q : α → Prop) (W : Event → Prop) (m : Evaluation α) : Prop :=
  ∀ k, ∃ o, Yields m k o ∧ Q o.value ∧ ∀ e ∈ o.events, W e

section Ends
variable {α β : Type} {Q : α → Prop} {R : β → Prop} {W : Event → Prop}

theorem Ends.pure {a : α} (h : Q a) : Ends Q W (pure a) :=
  fun k => ⟨_, Yields.pure a k, h, by simp⟩

theorem Ends.bind {m : Evaluation α} {f : α → Evaluation β} (first : Ends Q W m)
    (second : ∀ a, Q a → Ends R W (f a)) : Ends R W (m >>= f) := by
  intro k
  obtain ⟨o, ho, hq, ow⟩ := first k
  obtain ⟨r, hr, hv, rw⟩ := second o.value hq o.reads
  refine ⟨_, ho.bind hr, hv, ?_⟩
  intro e he
  rcases List.mem_append.mp he with he | he
  · exact ow e he
  · exact rw e he

theorem Ends.write {e : Event} (h : W e) : Ends (fun _ => True) W (Evaluation.write e) :=
  fun k => ⟨_, Yields.write e k, trivial, by simpa using h⟩

theorem Ends.readCounter (env : Env) : Ends (fun _ => True) W env.readCounter :=
  fun k => ⟨_, Yields.readCounter env k, trivial, by simp⟩

end Ends

/-- The property `P` of an evaluation, under a condition on its value, follows from what the
evaluation is put together from, as long as it writes events as `W` says. -/
structure OfParts (env : Env) (W : Event → Prop)
    (P : (α : Type) → (α → Prop) → Evaluation α → Prop) : Prop where
  pure {α : Type} {Q : α → Prop} {a : α} : Q a → P α Q (pure a)
  bind {α β : Type} {Q : α → Prop} {R : β → Prop} {m : Evaluation α} {f : α → Evaluation β} :
    P α Q m → (∀ a, Q a → P β R (f a)) → P β R (m >>= f)
  write {e : Event} : W e → P Unit (fun _ => True) (Evaluation.write e)
  readCounter : P Int (fun _ => True) env.readCounter

theorem OfParts.report {env : Env} {W : Event → Prop}
    {P : (α : Type) → (α → Prop) → Evaluation α → Prop} (parts : OfParts env W P) {p : Problem}
    {shown : Excerpt} (h : W (.problem p shown)) :
    P Unit (fun _ => True) (Evaluation.report p shown) := parts.write h

theorem Ends.ofParts (env : Env) (W : Event → Prop) : OfParts env W fun _ Q m => Ends Q W m :=
  ⟨Ends.pure, Ends.bind, Ends.write, Ends.readCounter env⟩

/-- Both evaluations have an outcome, with values that `R` relates, the same problems, and the same
number of readings. -/
def Alike {α β : Type} (R : α → β → Prop) (m : Evaluation α) (n : Evaluation β) : Prop :=
  ∀ k, ∃ o r, Yields m k o ∧ Yields n k r ∧ R o.value r.value ∧
    problemsOf o.events = problemsOf r.events ∧ o.reads = r.reads

section Alike
variable {α β γ δ : Type} {R : α → β → Prop} {S : γ → δ → Prop}

theorem Alike.pure {a : α} {b : β} (h : R a b) : Alike R (pure a) (pure b) :=
  fun k => ⟨_, _, Yields.pure a k, Yields.pure b k, h, rfl, rfl⟩

theorem Alike.bind {m : Evaluation α} {n : Evaluation β} {f : α → Evaluation γ}
    {g : β → Evaluation δ} (first : Alike R m n)
    (second : ∀ a b, R a b → Alike S (f a) (g b)) : Alike S (m >>= f) (n >>= g) := by
  intro k
  obtain ⟨o, r, ho, hr, hv, problems, reads⟩ := first k
  obtain ⟨o', r', ho', hr', hv', problems', reads'⟩ := second _ _ hv o.reads
  refine ⟨_, _, ho.bind ho', hr.bind (reads ▸ hr'), hv', ?_, reads'⟩
  simp only [problemsOf_append, problems, problems']

theorem Alike.report (p : Problem) (shown : Excerpt) :
    Alike (fun _ _ => True) (Evaluation.report p shown) (Evaluation.report p shown) :=
  fun k => ⟨_, _, Yields.report p shown k, Yields.report p shown k, trivial, rfl, rfl⟩

theorem Alike.readCounter {env env' : Env} (h : env.counter = env'.counter) :
    Alike Eq env.readCounter env'.readCounter :=
  fun k => ⟨_, _, Yields.readCounter env k, Yields.readCounter env' k, congrFun h k, rfl, rfl⟩

/-- Steps of an evaluation are no problems, so two different ones go unnoticed. -/
theorem Alike.combined (lhs rhs lhs' rhs' : Int) (op op' : Operator) :
    Alike (fun _ _ => True) (Evaluation.write (.combined lhs op rhs))
      (Evaluation.write (.combined lhs' op' rhs')) :=
  fun k => ⟨_, _, Yields.write _ k, Yields.write _ k, trivial, rfl, rfl⟩

end Alike

end AsmOperand
