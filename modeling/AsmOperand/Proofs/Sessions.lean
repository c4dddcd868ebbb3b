import AsmOperand.Proofs.Work
import AsmOperand.Session

/-!
# What a session leaves behind

Tables change only by taking definitions, whatever the steps of a session are, so what is known of
chains of tables holds for a session from any of its states to any later one.
-/

namespace AsmOperand.Session

/-- What steps do to the state of a session. -/
structure State.Grows (st later : State) : Prop where
  forest : st.forest.Grows later.forest
  desk : st.desk.Grows later.desk

namespace State

instance : Std.Refl Grows := ⟨fun _ => ⟨refl_of Forest.Grows _, refl_of Desk.Grows _⟩⟩

instance : IsTrans State Grows where
  trans _ _ _ first second := ⟨trans_of Forest.Grows first.forest second.forest,
    trans_of Desk.Grows first.desk second.desk⟩

end State

theorem run_scope (i : Nat) (st : State) : (scope i).run st =
    match st.forest.scope? i with
    | some s => .ok s st
    | none => .error (.unknownTable i) st := by
  rw [scope, EStateM.run_bind, EStateM.run_get]
  cases found : st.forest.scope? i with
  | none =>
    simp only [found]
    rfl
  | some s => simp only [found, EStateM.run_pure]

/-- What follows may depend on the scope that is found. -/
theorem scope_bind {α : Type} {i : Nat} {f : Scope → Step α}
    (h : ∀ st s, st.forest.scope? i = some s → State.Grows st (finalState ((f s).run st))) :
    Moves State.Grows (scope i >>= f) := by
  intro st
  rw [EStateM.run_bind, run_scope]
  cases found : st.forest.scope? i with
  | none => exact refl_of State.Grows st
  | some s => exact h st s found

/-- What only looks at a scope changes nothing. -/
theorem scope_map {α : Type} {i : Nat} (f : Scope → α) :
    Moves State.Grows (do return f (← scope i) : Step α) :=
  scope_bind fun st _ _ => refl_of State.Grows st

theorem entries_grows (i : Nat) : Moves State.Grows (entries i) := by
  apply scope_bind
  intro st s _
  cases s.entries with
  | ok es => exact refl_of State.Grows st
  | error name => exact refl_of State.Grows st

theorem modifyDesk_grows {f : Desk → Desk} (h : ∀ d : Desk, d.Grows (f d)) :
    Moves State.Grows (modifyDesk f) :=
  Moves.modify fun st => ⟨refl_of Forest.Grows _, h st.desk⟩

/-- An answer that follows a change of the desk. -/
theorem modifyDesk_bind {f : Desk → Desk} (h : ∀ d : Desk, d.Grows (f d)) (answer : Answer) :
    Moves State.Grows (do modifyDesk f; return answer) :=
  Moves.bind (modifyDesk_grows h) fun _ => Moves.pure answer

section Steps
variable (settings : Settings) (h : Heading)

/-- What work builds up at its workplace is put back into the table. -/
theorem work_grows {α : Type} {job : Job → Work α}
    (grows : ∀ j, Moves Workplace.Grows (job j)) : Moves State.Grows (work settings h job) := by
  apply scope_bind
  intro st s found
  have moved := grows ⟨settings, st.counter.reading, h.ledger⟩ ⟨s, st.desk, st.reads⟩
  rw [EStateM.run_bind, EStateM.run_get]
  cases ends : (job ⟨settings, st.counter.reading, h.ledger⟩).run ⟨s, st.desk, st.reads⟩ with
  | ok a w =>
    rw [ends] at moved
    simp only [ends]
    exact ⟨Forest.grows_setTable found moved.scope, moved.desk⟩
  | error f w =>
    rw [ends] at moved
    simp only [ends]
    exact ⟨Forest.grows_setTable found moved.scope, moved.desk⟩

theorem perform_grows (a : Action) : Moves State.Grows (perform settings h a) := by
  cases a with
  | define name value source =>
    apply scope_bind
    intro st s found
    cases defined : s.define name value source with
    | error r => exact refl_of State.Grows st
    | ok result =>
      obtain ⟨kept, s'⟩ := result
      have taken : s.Grows s' := .single ⟨name, kept, value, source, defined⟩
      exact ⟨Forest.grows_setTable found taken, refl_of Desk.Grows _⟩
  | get name =>
    apply scope_bind
    intro st s _
    cases s.lookup name with
    | ok v => exact refl_of State.Grows st
    | error key => exact refl_of State.Grows st
  | contains name =>
    cases name with
    | none => exact Moves.pure _
    | some name => exact scope_map _
  | size => exact scope_map _
  | entries => exact entries_grows _
  | names => exact scope_map _
  | text => exact scope_map _
  | sourceOf name => exact scope_map _
  | defineText path delimiter t =>
    apply Moves.bind (work_grows settings h fun j => j.defineAll_grows _)
    exact fun _ => entries_grows _
  | defineExcerpts es =>
    apply Moves.bind (work_grows settings h fun j => j.defineAll_grows _)
    exact fun _ => entries_grows _
  | evaluate operand =>
    apply Moves.bind (work_grows settings h fun j => j.evaluate_grows operand)
    exact fun v => Moves.pure _
  | setCounter c => exact fun st => ⟨refl_of Forest.Grows _, refl_of Desk.Grows _⟩
  | readCounter => exact fun st => ⟨refl_of Forest.Grows _, refl_of Desk.Grows _⟩
  | checkByte range value source =>
    rw [perform]
    obtain ⟨checked, problem⟩ := range.check value
    cases problem with
    | none => exact Moves.pure _
    | some p => exact modifyDesk_bind (fun d => d.grows_error _ _ _) _
  | report kind detail place => exact modifyDesk_bind (fun d => d.grows_error _ _ _) _
  | error message place => exact modifyDesk_bind (fun d => d.grows_error _ _ _) _
  | warning message place => exact modifyDesk_bind (fun d => d.grows_warning _ _ _) _
  | info message place => exact modifyDesk_bind (fun d => d.grows_write _) _
  | summarize path => exact modifyDesk_bind (fun d => d.grows_write _) _
  | tally => exact fun st => refl_of State.Grows st
  | reports => exact fun st => refl_of State.Grows st
  | describe logger => exact fun st => refl_of State.Grows st

/-- A session goes on from the state that a step leaves. -/
theorem run_grows (p : Program) (st : State) : st.Grows (run settings p st).state := by
  induction p generalizing st with
  | done => exact refl_of State.Grows st
  | step h a rest ih =>
    have here := perform_grows settings h a st
    rw [run]
    cases ends : (perform settings h a).run st with
    | ok answer after =>
      rw [ends] at here
      exact trans_of State.Grows here (ih after)
    | error e after =>
      rw [ends] at here
      cases throws : thrownBy (α := Answer) h (.error (Ledger.Stop.other e)) with
      | none =>
        simp only [throws]
        exact trans_of State.Grows here (ih after)
      | some stop =>
        simp only [throws]
        exact here
  | check h body rest ihBody ihRest =>
    have here := ihBody st
    rw [run]
    split
    · exact here
    · exact trans_of State.Grows here (ihRest _)

end Steps

/-- What a definition comes to in a table of a session. -/
theorem run_define (settings : Settings) {h : Heading} {st : State} {s : Scope}
    (here : st.forest.scope? h.table = some s) (sized : s.inner.Sized) (n : Text) (v : Int)
    (source : Option Excerpt) : (perform settings h (.define n v source)).run st =
      match s.lookup n with
      | .ok _ => .error (.refused ⟨.redefined (s.inner.clip n),
          [source, s.inner.sourceOf (s.inner.clip n)].filterMap id⟩) st
      | .error _ => .ok (.name (s.inner.clip n))
          { st with forest := st.forest.setTable h.table (s.store n v source).inner } := by
  rw [perform, EStateM.run_bind, run_scope, here]
  simp only [Scope.define_eq sized]
  cases s.lookup n with
  | ok old => rfl
  | error key => rfl

/-- In every table at every moment of a session: a name is contained exactly if it has a value. It
can be defined exactly if it has none; then all names that are kept like it get the value, and no
other name becomes anything else there. What has a value keeps it through all that follows. -/
theorem defined_once (settings : Settings) {start : State} (sized : start.forest.Sized)
    (p : Program) {i : Nat} {s : Scope}
    (here : (run settings p start).state.forest.scope? i = some s) :
    let now := (run settings p start).state
    let size := s.inner.symbolSize.toNat
    (∀ k, s.contains k = true ↔ ∃ v, s.lookup k = .ok v) ∧
    (∀ (h : Heading) (n : Text) (v : Int) (source : Option Excerpt), h.table = i →
      ((∃ r, r.problem = .redefined (n.take size) ∧
          (perform settings h (.define n v source)).run now = .error (.refused r) now) ↔
        ∃ old, s.lookup n = .ok old) ∧
      ((∀ old, s.lookup n ≠ .ok old) → ∃ later t,
        (perform settings h (.define n v source)).run now = .ok (.name (n.take size)) later ∧
        later.forest.scope? i = some t ∧
        t.inner.symbols = s.inner.symbols ++ [⟨n.take size, v, source⟩] ∧
        ∀ k, t.lookup k = if k.take size = n.take size then .ok v else s.lookup k)) ∧
    (∀ k v, s.lookup k = .ok v → ∀ q, ∃ t,
      (run settings q now).state.forest.scope? i = some t ∧ t.lookup k = .ok v) := by
  intro now size
  have sizedNow : now.forest.Sized :=
    Forest.sized_of_grows sized (run_grows settings p start).forest
  have sizedHere := Forest.sized_of_scope? sizedNow here
  have clips (k : Text) : s.inner.clip k = k.take size := Table.clip_eq_take sizedHere k
  refine ⟨s.contains_iff, ?_, ?_⟩
  · rintro h n v source rfl
    have ran := run_define settings here sizedHere n v source
    simp only [clips] at ran
    cases known : s.lookup n with
    | ok old =>
      simp only [known] at ran
      refine ⟨iff_of_true ⟨_, rfl, ran⟩ ⟨old, rfl⟩, ?_⟩
      intro fresh
      exact absurd rfl (fresh old)
    | error key =>
      have fresh : ∀ old, s.lookup n ≠ .ok old := by
        intro old same
        rw [known] at same
        cases same
      simp only [known] at ran
      refine ⟨iff_of_false ?_ ?_, ?_⟩
      · rintro ⟨r, _, refused⟩
        rw [ran] at refused
        cases refused
      · rintro ⟨old, same⟩
        cases same
      · intro _
        refine ⟨_, _, ran, Forest.scope?_setTable _ _ here, ?_, ?_⟩
        · rw [← clips]
          exact Scope.symbols_store fresh v source
        · intro k
          rw [← clips, ← clips]
          exact Scope.lookup_store fresh v source k
  · intro k v found q
    obtain ⟨t, later, continues⟩ :=
      Forest.scope?_of_grows sizedNow (run_grows settings q now).forest here
    exact ⟨t, later, continues.values k v found⟩

/-- The inner table has `BUFFER` of its own. It finds `BUFFET` further out, where four characters
count and `BUFFALO` was defined. -/
theorem defined_once_buffer :
    let start : State := ⟨#[⟨⟨4, []⟩, .given [(['G'], 7)]⟩, ⟨⟨8, []⟩, .table 0⟩], .fixed 0, {}, 0⟩
    let p : Program :=
      .step ⟨1, .a, false⟩ (.define "BUFFER".toList 1 none)
        (.step ⟨0, .a, false⟩ (.define "BUFFALO".toList 2 none) .done)
    let now := (run Settings.default p start).state
    let name := "BUFFET".toList
    start.forest.Sized ∧ ∃ s, now.forest.scope? 1 = some s ∧ s.contains name = true ∧
      (∃ r, r.problem = .redefined name ∧
        (perform Settings.default ⟨1, .a, false⟩ (.define name 3 none)).run now =
          .error (.refused r) now) ∧
      ∀ q, ∃ t, (run Settings.default q now).state.forest.scope? 1 = some t ∧
        t.lookup name = .ok 2 := by
  intro start p now name
  have sized : start.forest.Sized := by decide
  have here : now.forest.scope? 1 = some ⟨⟨8, [⟨"BUFFER".toList, 1, none⟩]⟩,
      [⟨4, [⟨"BUFF".toList, 2, none⟩]⟩], [(['G'], 7)]⟩ := by decide +kernel
  obtain ⟨contains, defines, stays⟩ := defined_once Settings.default sized p here
  obtain ⟨refused, _⟩ := defines ⟨1, .a, false⟩ name 3 none rfl
  exact ⟨sized, _, here, (contains name).mpr ⟨2, rfl⟩, refused.mpr ⟨2, rfl⟩, stays name 2 rfl⟩

end AsmOperand.Session
