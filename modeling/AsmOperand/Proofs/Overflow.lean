import AsmOperand.Proofs.Narrowing
import AsmOperand.Proofs.Relocation
import AsmOperand.Proofs.Shifts

/-!
# Where nothing overflows

A pass can be watched: the values that it comes across are noted, each as an accumulator gets it or
an operator yields it, and nothing else changes. If a register holds all values that are noted
without a limit on the width, the pass at the width of the register comes to the same ending. A
shift to the left may be refused without a limit and taken with one, so none may be refused.
-/

namespace AsmOperand

/-- Evaluation with a list of the values that have come up, the latest first. -/
abbrev Watched := StateT (List Int) Evaluation

/-- Notes the value that an evaluation comes to. -/
def noted (m : Watched Int) : Watched Int := do
  let v ← m
  modify (v :: ·)
  return v

/-- What is noted makes no difference to the evaluation. -/
def Watches {α : Type} (m : Watched α) (n : Evaluation α) : Prop := ∀ notes, m.run' notes = n

namespace Watches

variable {α β : Type}

theorem pure (a : α) : Watches (pure a) (pure a) := by
  intro notes
  simp [StateT.run'_eq]

theorem lift (n : Evaluation α) : Watches (liftM n) n := by
  intro notes
  simp [StateT.run'_eq]

theorem bind {m : Watched α} {n : Evaluation α} {f : α → Watched β} {g : α → Evaluation β}
    (first : Watches m n) (second : ∀ a, Watches (f a) (g a)) : Watches (m >>= f) (n >>= g) := by
  intro notes
  calc (m >>= f).run' notes
      = m.run notes >>= fun r => (f r.1).run' r.2 := by simp [StateT.run'_eq]
    _ = m.run notes >>= fun r => g r.1 := by simp only [second _ _]
    _ = m.run' notes >>= g := by simp [StateT.run'_eq]
    _ = n >>= g := by rw [first notes]

theorem noted {m : Watched Int} {n : Evaluation Int} (h : Watches m n) : Watches (noted m) n := by
  have same : n = n >>= Pure.pure := (bind_pure n).symm
  rw [same]
  apply bind h
  intro v notes
  simp [StateT.run'_eq]

end Watches

namespace Env

open Evaluation

/-- Combining the operators that wait, with all their results noted. -/
def watchUnwind (env : Env) : List Pending → Int → Watched Int
  | [], value => pure value
  | p :: pending, value => do
    let value ← noted (env.combine p.op p.lhs value p.shown)
    env.watchUnwind pending value

/-- One pass, with every value noted that an accumulator gets: from a literal, a string, a symbol,
the location counter or a group. A name that is not known leaves the value so far, which is noted
again. -/
def watch (env : Env) : Scan → List Pending → Int → Watched Int
  | .done, pending, value => env.watchUnwind pending value
  | .unclosed opened, pending, value => do
    report .missingParenthesis opened
    env.watchUnwind pending value
  | .group overlong body rest, pending, _ => do
    env.reportOverlong overlong
    let value ← noted (env.watch body [] 0)
    env.watch rest pending value
  | .quoted unended overlong chars rest, pending, _ => do
    reportUnended unended
    env.reportOverlong overlong
    let value ← noted (env.wrap (Numeral.packed chars))
    env.watch rest pending value
  | .word overlong token rest, pending, value => do
    env.reportOverlong overlong
    match Token.ofText token.text with
    | .operator op => env.watch rest (⟨op, value, token⟩ :: pending) 0
    | _ => do
      let value ← noted (env.wordValue token value)
      env.watch rest pending value

/-- The value of an operand, with all values noted on the way to it. -/
def watchOperand (env : Env) (operand : Excerpt) : Watched Int :=
  if operand.isBackward then
    if operand.text.isAllBlank then pure 0 else throw .backwardSpan
  else env.watch (operand.scan env.settings) [] 0

section Watches
variable (env : Env)

theorem watchUnwind_watches (pending : List Pending) (value : Int) :
    Watches (env.watchUnwind pending value) (env.unwind pending value) := by
  induction pending generalizing value with
  | nil => exact .pure value
  | cons p pending ih => exact .bind (.noted (.lift _)) ih

/-- Watching a pass does not change it. -/
theorem watch_watches (s : Scan) (pending : List Pending) (value : Int) :
    Watches (env.watch s pending value) (env.pass s pending value) := by
  induction s generalizing pending value with
  | done => exact env.watchUnwind_watches pending value
  | unclosed opened => exact .bind (.lift _) fun _ => env.watchUnwind_watches pending value
  | group overlong body rest ihBody ihRest =>
    apply Watches.bind (.lift _)
    intro _
    exact .bind (.noted (ihBody [] 0)) fun v => ihRest pending v
  | quoted unended overlong chars rest ih =>
    rw [pass_quoted]
    apply Watches.bind (.lift _)
    intro _
    apply Watches.bind (.lift _)
    intro _
    exact .bind (.noted (.lift _)) fun v => ih pending v
  | word overlong token rest ih =>
    rw [pass_word]
    apply Watches.bind (.lift _)
    intro _
    cases Token.ofText token.text with
    | operator op => exact ih _ 0
    | numeral r => exact .bind (.noted (.lift _)) fun v => ih pending v
    | name => exact .bind (.noted (.lift _)) fun v => ih pending v

end Watches

end Env

/-- No shift to the left is refused because it goes too far. -/
def TakesShifts (events : List Event) : Prop :=
  ∀ count limit shown, Event.problem (.shiftTooLarge count limit) shown ∉ events

theorem TakesShifts.append {es fs : List Event} (h : TakesShifts (es ++ fs)) :
    TakesShifts es ∧ TakesShifts fs := by
  constructor
  · exact fun count limit shown mem => h count limit shown (List.mem_append_left fs mem)
  · exact fun count limit shown mem => h count limit shown (List.mem_append_right es mem)

/-- A register holds what stands on the left of an operator that waits. -/
def HeldLeft (w : Width) (pending : List Pending) : Prop := ∀ p ∈ pending, w.Holds p.lhs

theorem heldLeft_nil (w : Width) : HeldLeft w [] := List.forall_mem_nil _

/-- The first evaluation comes to an outcome. If a register of this width holds its value, no shift
is refused and `P` is the case, then the second one comes to the same. -/
def Keeps (w : Width) (P : Prop) (m n : Evaluation Int) : Prop :=
  ∀ k, ∃ o, Yields m k o ∧ (w.Holds o.value → TakesShifts o.events → P → Yields n k o)

/-- The watched evaluation comes to an outcome. If a register of this width holds all that it notes,
no shift is refused and `P` is the case, then its value is as `Q` says and the other evaluation
comes to the same. -/
def Repeats (w : Width) {α : Type} (P : Prop) (Q : α → Prop) (m : Watched α) (n : Evaluation α) :
    Prop :=
  ∀ notes k, ∃ a more es j, Yields (m.run notes) k ⟨(a, more ++ notes), es, j⟩ ∧
    ((∀ v ∈ more, w.Holds v) → TakesShifts es → P → Q a ∧ Yields n k ⟨a, es, j⟩)

theorem Yields.liftM {α : Type} {m : Evaluation α} {k j : Nat} {a : α} {es : List Event}
    (h : Yields m k ⟨a, es, j⟩) (notes : List Int) :
    Yields ((liftM m : Watched α).run notes) k ⟨(a, notes), es, j⟩ := by
  have kept := Yields.bind (f := fun a => Pure.pure (a, notes)) h (Yields.pure (a, notes) j)
  rwa [List.append_nil] at kept

theorem Yields.noted {m : Watched Int} {k j : Nat} {v : Int} {notes after : List Int}
    {es : List Event} (h : Yields (m.run notes) k ⟨(v, after), es, j⟩) :
    Yields ((AsmOperand.noted m).run notes) k ⟨(v, v :: after), es, j⟩ := by
  have kept := Yields.bind (f := fun r => Pure.pure (r.1, r.1 :: r.2)) h
    (Yields.pure (v, v :: after) j)
  rwa [List.append_nil] at kept

namespace Repeats

variable {w : Width} {α β : Type} {P : Prop} {Q : α → Prop} {R : β → Prop}

theorem pure {a : α} (h : P → Q a) : Repeats w P Q (pure a) (pure a) :=
  fun notes k => ⟨a, [], [], k, Yields.pure (a, notes) k, fun _ _ p => ⟨h p, Yields.pure a k⟩⟩

theorem bind {m : Watched α} {n : Evaluation α} {f : α → Watched β} {g : α → Evaluation β}
    (first : Repeats w P Q m n) (second : ∀ a, Repeats w (P ∧ Q a) R (f a) (g a)) :
    Repeats w P R (m >>= f) (n >>= g) := by
  intro notes k
  obtain ⟨a, more, es, j, watched, same⟩ := first notes k
  obtain ⟨b, further, fs, i, watched', same'⟩ := second a (more ++ notes) j
  refine ⟨b, further ++ more, es ++ fs, i, ?_, ?_⟩
  · rw [StateT.run_bind, List.append_assoc]
    exact Yields.bind watched watched'
  · intro held taken p
    obtain ⟨heldAfter, heldBefore⟩ := List.forall_mem_append.mp held
    obtain ⟨takenBefore, takenAfter⟩ := taken.append
    obtain ⟨q, here⟩ := same heldBefore takenBefore p
    obtain ⟨r, rest⟩ := same' heldAfter takenAfter ⟨p, q⟩
    exact ⟨r, Yields.bind here rest⟩

theorem mono {P' : Prop} {m : Watched α} {n : Evaluation α} (weaker : P' → P)
    (h : Repeats w P Q m n) : Repeats w P' Q m n := by
  intro notes k
  obtain ⟨a, more, es, j, watched, same⟩ := h notes k
  exact ⟨a, more, es, j, watched, fun held taken p => same held taken (weaker p)⟩

/-- After a step that has no value nothing more is known. -/
theorem after {m : Watched Unit} {n : Evaluation Unit} {f : Unit → Watched β}
    {g : Unit → Evaluation β} (first : Repeats w P (fun _ => True) m n)
    (second : Repeats w P R (f ()) (g ())) :
    Repeats w P R (m >>= f) (n >>= g) :=
  bind first fun _ => second.mono And.left

/-- What does not depend on the width. -/
theorem lift {m : Evaluation α} (h : Ends Q (fun _ => True) m) : Repeats w P Q (liftM m) m := by
  intro notes k
  obtain ⟨⟨a, es, j⟩, yields, q, _⟩ := h k
  exact ⟨a, [], es, j, yields.liftM notes, fun _ _ _ => ⟨q, yields⟩⟩

/-- What is noted is held. -/
theorem noted {m : Watched Int} {n : Evaluation Int} {Q : Int → Prop} (h : Repeats w P Q m n) :
    Repeats w P w.Holds (noted m) n := by
  intro notes k
  obtain ⟨v, more, es, j, watched, same⟩ := h notes k
  refine ⟨v, v :: more, es, j, watched.noted, ?_⟩
  intro held taken p
  obtain ⟨here, others⟩ := List.forall_mem_cons.mp held
  exact ⟨here, (same others taken p).2⟩

theorem noted_lift {m n : Evaluation Int} (h : Keeps w P m n) :
    Repeats w P w.Holds (AsmOperand.noted (liftM m)) n := by
  intro notes k
  obtain ⟨⟨v, es, j⟩, yields, same⟩ := h k
  refine ⟨v, [v], es, j, (yields.liftM notes).noted, ?_⟩
  intro held taken p
  have here := held v List.mem_cons_self
  exact ⟨here, same here taken p⟩

end Repeats

namespace Env

/-- Only without a limit on the width an operator asks how far a shift goes. -/
theorem result_atWidth (env : Env) (n : Int) (op : Operator) (a b : Int)
    (taken : ∀ count limit,
      op.result (env.atWidth .unlimited).settings a b ≠ .error (.shiftTooLarge count limit)) :
    op.result (env.atWidth (.bits n)).settings a b =
      op.result (env.atWidth .unlimited).settings a b := by
  cases op with
  | shiftLeft =>
    by_cases negative : b < 0
    · simp only [Operator.result, if_pos negative]
    have near : ¬(b > env.settings.shiftLimit) := by
      intro far
      apply taken b env.settings.shiftLimit
      simp only [Operator.result, if_neg negative]
      exact if_pos ⟨rfl, far⟩
    simp only [Operator.result, if_neg negative, atWidth, reduceCtorEq, false_and, if_false]
    exact (if_neg fun far => near far.2).symm
  | _ => rfl

section Exact
variable (env : Env) {n : Nat} (positive : 1 ≤ n)
include positive

theorem wrap_keeps (P : Prop) (v : Int) :
    Keeps (.bits n) P ((env.atWidth .unlimited).wrap v) ((env.atWidth (.bits n)).wrap v) := by
  have pos : (env.atWidth (.bits n)).settings.width.Positive := Int.ofNat_le.mpr positive
  intro k
  refine ⟨_, Yields.pure v k, ?_⟩
  intro held _ _
  rw [wrap_eq pos, show (env.atWidth (.bits n)).settings.width.wrapped v = v from
    Width.wrapped_of_holds pos held]
  exact Yields.pure v k

theorem wordValue_keeps (P : Prop) (token : Excerpt) (value : Int) :
    Keeps (.bits n) P ((env.atWidth .unlimited).wordValue token value)
      ((env.atWidth (.bits n)).wordValue token value) := by
  simp only [wordValue]
  cases Token.ofText token.text with
  | operator op => exact fun k => ⟨_, Yields.pure value k, fun _ _ _ => Yields.pure value k⟩
  | numeral r => exact env.wrap_keeps positive P _
  | name =>
    intro k
    by_cases mark : token.text = counterMark
    · obtain ⟨o, wide, same⟩ := env.wrap_keeps positive P (env.counter k) (k + 1)
      simp only [if_pos mark]
      refine ⟨_, Yields.bind (Yields.readCounter _ k) wide, ?_⟩
      intro held taken p
      exact Yields.bind (Yields.readCounter _ k) (same held taken p)
    · simp only [if_neg mark, lookup, atWidth]
      cases env.symbols (token.text.take env.settings.symbolSize) with
      | some v => exact env.wrap_keeps positive P v k
      | none =>
        have unknown := Yields.bind (f := fun _ => pure value) (Yields.report
          (.undefinedSymbol (token.text.take env.settings.symbolSize)) token k)
          (Yields.pure value k)
        exact ⟨_, unknown, fun _ _ _ => unknown⟩

theorem combine_keeps (op : Operator) (lhs rhs : Int) (shown : Excerpt) :
    Keeps (.bits n) ((Width.bits n).Holds lhs) ((env.atWidth .unlimited).combine op lhs rhs shown)
      ((env.atWidth (.bits n)).combine op lhs rhs shown) := by
  have pos : (env.atWidth (.bits n)).settings.width.Positive := Int.ofNat_le.mpr positive
  have posWide : (env.atWidth .unlimited).settings.width.Positive := trivial
  intro k
  cases result : op.result (env.atWidth .unlimited).settings lhs rhs with
  | ok v =>
    have wide := combines_of_ok posWide (fun _ => trivial) result
    refine ⟨_, wide shown k, ?_⟩
    intro held _ heldLeft
    have narrow := env.result_atWidth n op lhs rhs (by simp [result])
    rw [result] at narrow
    have same := combines_of_ok pos (fun _ => heldLeft) narrow shown k
    rwa [show (env.atWidth (.bits n)).settings.width.wrapped v = v from
      Width.wrapped_of_holds pos held] at same
  | error p =>
    have wide := combines_of_error posWide (fun _ => trivial) result
    refine ⟨_, wide shown k, ?_⟩
    intro _ taken heldLeft
    have narrow := env.result_atWidth n op lhs rhs (by
      intro count limit refused
      apply taken count limit shown
      obtain rfl := Except.error.inj (result.symm.trans refused)
      simp)
    rw [result] at narrow
    exact combines_of_error pos (fun _ => heldLeft) narrow shown k

theorem unwind_repeats (pending : List Pending) (value : Int) :
    Repeats (.bits n) (HeldLeft (.bits n) pending) (fun _ => True)
      ((env.atWidth .unlimited).watchUnwind pending value)
      ((env.atWidth (.bits n)).unwind pending value) := by
  induction pending generalizing value with
  | nil => exact .pure fun _ => trivial
  | cons p pending ih =>
    apply Repeats.bind
    · apply Repeats.mono _ (.noted_lift (env.combine_keeps positive p.op p.lhs value p.shown))
      exact fun held => held p List.mem_cons_self
    · intro value
      apply Repeats.mono _ (ih value)
      exact fun held q mem => held.1 q (List.mem_cons_of_mem p mem)

/-- Both passes go on alike as long as the register holds what they noted. What stands on the left
of the operators that wait has been noted before, as the value so far has. -/
theorem watch_repeats (s : Scan) (pending : List Pending) (value : Int) :
    Repeats (.bits n) ((Width.bits n).Holds value ∧ HeldLeft (.bits n) pending) (fun _ => True)
      ((env.atWidth .unlimited).watch s pending value)
      ((env.atWidth (.bits n)).pass s pending value) := by
  have overlong {P : Prop} (e : Option Excerpt) : Repeats (.bits n) P (fun _ => True)
      (liftM ((env.atWidth .unlimited).reportOverlong e))
      ((env.atWidth (.bits n)).reportOverlong e) := by
    cases e with
    | none => exact .lift (Ends.pure trivial)
    | some e => exact .lift (Ends.write trivial)
  -- An operator joins those that wait, and a word changes the value, so both are left open.
  induction s generalizing pending value with
  | done => exact (env.unwind_repeats positive pending value).mono And.right
  | unclosed opened =>
    apply Repeats.after (.lift (Ends.write trivial))
    exact (env.unwind_repeats positive pending value).mono And.right
  | group long body rest ihBody ihRest =>
    apply Repeats.after (overlong long)
    apply Repeats.bind (.noted ((ihBody [] 0).mono fun _ => ⟨Width.holds_zero _, heldLeft_nil _⟩))
    intro inner
    exact (ihRest pending inner).mono fun held => ⟨held.2, held.1.2⟩
  | quoted unended long chars rest ih =>
    rw [pass_quoted]
    apply Repeats.after
    · cases unended with
      | none => exact .lift (Ends.pure trivial)
      | some e => exact .lift (Ends.write trivial)
    apply Repeats.after (overlong long)
    apply Repeats.bind (.noted_lift (env.wrap_keeps positive _ _))
    intro packed
    exact (ih pending packed).mono fun held => ⟨held.2, held.1.2⟩
  | word long token rest ih =>
    rw [pass_word]
    apply Repeats.after (overlong long)
    have plain := Repeats.bind (R := fun _ => True)
      (.noted_lift (env.wordValue_keeps positive
        ((Width.bits n).Holds value ∧ HeldLeft (.bits n) pending) token value))
      fun next => (ih pending next).mono fun held => ⟨held.2, held.1.2⟩
    cases Token.ofText token.text with
    | operator op =>
      apply Repeats.mono _ (ih (⟨op, value, token⟩ :: pending) 0)
      rintro ⟨held, heldLeft⟩
      exact ⟨Width.holds_zero _, List.forall_mem_cons.mpr ⟨held, heldLeft⟩⟩
    | numeral r => exact plain
    | name => exact plain

end Exact

end Env

/-- A scan does not depend on the width. -/
theorem Scan.ofChars_width (s : Settings) (w : Width) (e : Excerpt) (i : Nat) (t : Text) :
    ofChars { s with width := w } e i t = ofChars s e i t := by
  let s' : Settings := { s with width := w }
  fun_induction ofChars s e i t with
  | case1 e i => rw [ofChars]
  | case2 e i c rest blank ih => exact (ofChars_blank s' e i blank).trans ih
  | case3 e i rest lasts notBlank => exact ofChars_unclosed s' e i lasts
  | case4 e i rest n closes body notBlank ihBody ihRest =>
    exact (ofChars_group s' e i closes).trans (congrArg₂ (group _) ihBody ihRest)
  | case5 e i rest n body closed notBlank notOpen ih =>
    exact (ofChars_closed s' e i notBlank notOpen rfl rfl closed).trans (congrArg _ ih)
  | case6 e i rest n body lasts notBlank notOpen ih =>
    exact (ofChars_unended s' e i notBlank notOpen rfl rfl lasts).trans (congrArg _ ih)
  | case7 e i c rest notBlank notOpen notQuote n token ih =>
    exact (ofChars_word s' e i notBlank notOpen notQuote rfl).trans (congrArg _ ih)

namespace Env

/-- Where nothing overflows, a register of finitely many bits is as good as none. `values` are those
that come up without a limit on the width. If the register holds them all and no shift is refused
for its count, an operand ends at the width of the register as it does without a limit: with the
same value or fault, the same steps, and the same problems, shown at the same places. -/
theorem evaluate_exact (env : Env) {n : Nat} (positive : 1 ≤ n) (e : Excerpt) (k : Nat) :
    ∃ (x : Ending Int) (values : List Int),
      EndsAs ((env.atWidth .unlimited).evaluate e) k x ∧
      EndsAs (((env.atWidth .unlimited).watchOperand e).run []) k
        ⟨x.result.map (·, values), x.events, x.reads⟩ ∧
      ((∀ v ∈ values, (Width.bits n).Holds v) → TakesShifts x.events →
        EndsAs ((env.atWidth (.bits n)).evaluate e) k x) := by
  by_cases backward : e.isBackward = true
  · simp only [evaluate, watchOperand, if_pos backward]
    by_cases blank : e.text.isAllBlank = true
    · simp only [if_pos blank]
      exact ⟨_, [], EndsAs.pure 0 k, EndsAs.pure (0, []) k, fun _ _ => EndsAs.pure 0 k⟩
    · simp only [if_neg blank]
      exact ⟨_, [], EndsAs.throw .backwardSpan k, EndsAs.throw .backwardSpan k,
        fun _ _ => EndsAs.throw .backwardSpan k⟩
  · have scanned (w : Width) : e.scan (env.atWidth w).settings = e.scan env.settings :=
      Scan.ofChars_width env.settings w e 0 e.text
    simp only [evaluate, watchOperand, if_neg backward, scanned]
    obtain ⟨a, more, es, j, watched, same⟩ :=
      env.watch_repeats positive (e.scan env.settings) [] 0 [] k
    have plain := (env.atWidth .unlimited).watch_watches (e.scan env.settings) [] 0 []
    rw [List.append_nil] at watched
    refine ⟨⟨.ok a, es, j⟩, more, ?_, watched, ?_⟩
    · have forgotten := Yields.bind (f := fun r => pure r.1) watched (Yields.pure a j)
      rw [List.append_nil] at forgotten
      rw [← plain, StateT.run'_eq, map_eq_pure_bind]
      exact forgotten
    · intro held taken
      exact (same held taken ⟨Width.holds_zero _, heldLeft_nil _⟩).2

/-- Eight bits hold all that comes up here. A zero is shifted by far more places than that, a name
is not known, and what stands for it divides by zero. -/
theorem evaluate_exact_byte :
    let env : Env :=
      ⟨Settings.default, fun name => if name = ['X'] then some 100 else none, fun _ => 0⟩
    let e := Excerpt.ofText "($-X)/7+(0<40)%Y".toList
    1 ≤ 8 ∧ ∃ (x : Ending Int) (values : List Int),
      EndsAs ((env.atWidth .unlimited).evaluate e) 0 x ∧
      values = [-14, 7, 0, 0, 0, 0, 40, 0, 7, -100, -100, 100, 0] ∧
      (∀ v ∈ values, (Width.bits (8 : Nat)).Holds v) ∧ TakesShifts x.events ∧
      problemsOf x.events =
        [(.undefinedSymbol ['Y'], e.sub 15 16), (.divisionByZero, e.sub 14 15)] ∧
      EndsAs ((env.atWidth (.bits (8 : Nat))).evaluate e) 0 x := by
  intro env e
  have known : outcome? (((env.atWidth .unlimited).watchOperand e).run []) 0 =
      some ⟨(-14, [-14, 7, 0, 0, 0, 0, 40, 0, 7, -100, -100, 100, 0]),
        [.combined 0 .minus 100, .combined 0 .shiftLeft 40,
          .problem (.undefinedSymbol ['Y']) (e.sub 15 16), .combined 0 .modulo 0,
          .problem .divisionByZero (e.sub 14 15), .combined 7 .plus 0,
          .combined (-100) .divide 7], 1⟩ := by
    decide +kernel
  obtain ⟨⟨result, events, reads⟩, values, wide, watched, exact⟩ :=
    evaluate_exact env (n := 8) (by decide) e 0
  have same := watched.eq_of_outcome? known
  cases result with
  | error f => cases same
  | ok v =>
    cases same
    have held : ∀ v ∈ [-14, 7, 0, 0, 0, 0, 40, 0, 7, -100, -100, 100, 0],
        (Width.bits (8 : Nat)).Holds v := by decide
    refine ⟨by decide, _, _, wide, rfl, held, ?taken, rfl, exact held ?taken⟩
    intro count limit shown mem
    simp at mem

end Env

end AsmOperand
