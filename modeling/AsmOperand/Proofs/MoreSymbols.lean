import AsmOperand.Definition
import AsmOperand.Proofs.Endings
import AsmOperand.Proofs.Symbols

/-!
# More symbols

An operand that knows all its names comes to the same when there are more symbols: the same value or
the same fault, the same problems and steps in the same order, and as many readings of the location
counter. Symbols that are added to tables are more symbols. A table has a value for every name that
it had one for, whether the name is added to the table itself or to one further out.

Added is what had no value before. Where every table keeps at least one character of a name, that is
so for whatever is defined; a table with a size below zero may take a definition of a name that has
a value, and what it keeps is then another symbol in place of the old one.
-/

namespace AsmOperand

/-- If the first evaluation asks for no name that is unknown, the second ends as it does. -/
def Carries {α : Type} (m n : Evaluation α) : Prop :=
  ∀ k, ∃ x, EndsAs m k x ∧ (x.Known → EndsAs n k x)

namespace Carries

variable {α β : Type}

theorem of_knows {m : Evaluation α} (h : Knows m) : Carries m m := by
  intro k
  obtain ⟨x, ends, _⟩ := h k
  exact ⟨x, ends, fun _ => ends⟩

theorem bind {m n : Evaluation α} {f g : α → Evaluation β} (first : Carries m n)
    (second : ∀ a, Carries (f a) (g a)) : Carries (m >>= f) (n >>= g) := by
  intro k
  obtain ⟨⟨result, es, j⟩, here, carries⟩ := first k
  cases result with
  | error e => exact ⟨_, here.bind_error, fun known => (carries known).bind_error⟩
  | ok a =>
    obtain ⟨x, rest, carriesRest⟩ := second a j
    refine ⟨_, here.bind rest, ?_⟩
    intro known
    have knownHere : (⟨.ok a, es, j⟩ : Ending α).Known :=
      fun name shown asked => known name shown (List.mem_append_left _ asked)
    have knownRest : x.Known :=
      fun name shown asked => known name shown (List.mem_append_right _ asked)
    exact (carries knownHere).bind (carriesRest knownRest)

end Carries

namespace Env

section More
variable (env : Env) {more : Text → Option Int}
  (extend : ∀ name v, env.symbols name = some v → more name = some v)
include extend

/-- Where a name is known, more symbols give it the same value; where it is not, it was asked for.
-/
theorem lookup_carries (token : Excerpt) (value : Int) :
    Carries (env.lookup token value) ({ env with symbols := more }.lookup token value) := by
  cases symbol : env.symbols (token.text.take env.settings.symbolSize) with
  | some v =>
    simp only [lookup, symbol, extend _ _ symbol]
    exact .of_knows (env.wrap_knows v)
  | none =>
    intro k
    refine ⟨_, env.lookup_ends_unknown value symbol k, ?_⟩
    intro known
    exact absurd List.mem_cons_self (known _ token)

theorem wordValue_carries (token : Excerpt) (value : Int) :
    Carries (env.wordValue token value) ({ env with symbols := more }.wordValue token value) := by
  simp only [wordValue]
  cases Token.ofText token.text with
  | operator op => exact .of_knows (Knows.pure value)
  | numeral r => exact .of_knows (env.wrap_knows _)
  | name =>
    by_cases mark : token.text = counterMark
    · simp only [if_pos mark]
      exact .of_knows ((Knows.readCounter env).bind env.wrap_knows)
    · simp only [if_neg mark]
      exact env.lookup_carries extend token value

theorem pass_carries (s : Scan) (value : Int) :
    Carries (env.pass s [] value) ({ env with symbols := more }.pass s [] value) := by
  induction s generalizing value with
  | done => exact .of_knows (Knows.pure value)
  | unclosed opened =>
    exact .of_knows ((Knows.report (by simp) opened).bind fun _ => Knows.pure value)
  | group long body rest ihBody ihRest =>
    apply Carries.bind (.of_knows (env.reportOverlong_knows long))
    intro _
    exact Carries.bind (ihBody 0) ihRest
  | quoted unended long chars rest ih =>
    rw [pass_quoted, pass_quoted]
    apply Carries.bind (.of_knows (reportUnended_knows unended))
    intro _
    apply Carries.bind (.of_knows (env.reportOverlong_knows long))
    intro _
    exact Carries.bind (.of_knows (env.wrap_knows _)) ih
  | word long token rest ih =>
    rw [pass_word_nil, pass_word_nil]
    apply Carries.bind (.of_knows (env.reportOverlong_knows long))
    intro _
    cases Token.ofText token.text with
    | operator op =>
      apply Carries.bind (ih 0)
      exact fun right => .of_knows (env.combine_knows op value right token)
    | numeral r => exact Carries.bind (env.wordValue_carries extend token value) ih
    | name => exact Carries.bind (env.wordValue_carries extend token value) ih

/-- An operand that is cut out of its line backward asks for no names at all. -/
theorem evaluate_carries (e : Excerpt) :
    Carries (env.evaluate e) ({ env with symbols := more }.evaluate e) := by
  simp only [evaluate]
  by_cases backward : e.isBackward = true
  · simp only [if_pos backward]
    by_cases blanks : e.text.isAllBlank = true
    · simp only [if_pos blanks]
      exact .of_knows (Knows.pure 0)
    · simp only [if_neg blanks]
      exact .of_knows (Knows.throw _)
  · simp only [if_neg backward]
    exact env.pass_carries extend (e.scan env.settings) 0

end More

end Env

namespace Forest

/-- One table of the forest takes a definition of a name that had no value there. -/
def Adds (f g : Forest) : Prop :=
  ∃ (i : Nat) (s s' : Scope) (name kept : Text) (value : Int) (source : Option Excerpt),
    f.scope? i = some s ∧ (∀ v, s.lookup name ≠ .ok v) ∧
      s.define name value source = .ok (kept, s') ∧ g = f.setTable i s'.inner

/-- Symbols were added, one after the other, to whichever tables. -/
def Extends : Forest → Forest → Prop := Relation.ReflTransGen Adds

/-- However many symbols are added, every value that was found is still found. -/
theorem scope?_of_extends {f g : Forest} (extend : f.Extends g) {j : Nat} {s : Scope}
    (h : f.scope? j = some s) : ∃ later, g.scope? j = some later ∧ s.Continues later := by
  induction extend with
  | refl => exact ⟨s, h, rfl, fun _ _ found => found⟩
  | tail _ step ih =>
    obtain ⟨now, here, continues⟩ := ih
    obtain ⟨i, t, t', name, kept, value, source, table, fresh, defined, rfl⟩ := step
    obtain rfl := Scope.eq_store defined
    obtain ⟨later, known, next⟩ := scope?_setTable_store table fresh value source here
    exact ⟨later, known, continues.trans next⟩

/-- Where names are kept by one character or more, every definition that is taken adds a symbol. -/
theorem extends_of_grows {f g : Forest} (sized : f.Sized) (grows : f.Grows g) : f.Extends g := by
  induction grows with
  | refl => exact .refl
  | tail before step ih =>
    obtain ⟨i, s, s', here, ⟨name, kept, value, source, defined⟩, rfl⟩ := step
    have size := sized_of_scope? (sized_of_grows sized before) here
    obtain ⟨fresh, _⟩ := Scope.eq_store_of_define size defined
    exact ih.tail ⟨i, s, s', name, kept, value, source, here, fresh, defined, rfl⟩

end Forest

namespace Env

/-- Evaluation is stable under more symbols, whether they come from another map or are added to the
tables of a forest. -/
theorem evaluate_moreSymbols (settings : Settings) (counter : Nat → Int) (e : Excerpt) :
    (∀ symbols more : Text → Option Int, (∀ name v, symbols name = some v → more name = some v) →
      Carries (Env.evaluate ⟨settings, symbols, counter⟩ e)
        (Env.evaluate ⟨settings, more, counter⟩ e)) ∧
    ∀ f g : Forest, f.Extends g ∨ (f.Sized ∧ f.Grows g) → ∀ i s, f.scope? i = some s →
      ∃ later, g.scope? i = some later ∧
        Carries (Env.evaluate ⟨settings, s.lookup?, counter⟩ e)
          (Env.evaluate ⟨settings, later.lookup?, counter⟩ e) := by
  have maps (symbols more : Text → Option Int)
      (extend : ∀ name v, symbols name = some v → more name = some v) :=
    Env.evaluate_carries ⟨settings, symbols, counter⟩ extend e
  refine ⟨maps, ?_⟩
  intro f g added i s here
  have extend : f.Extends g := by
    rcases added with extend | ⟨sized, grows⟩
    · exact extend
    · exact Forest.extends_of_grows sized grows
  obtain ⟨later, known, continues⟩ := Forest.scope?_of_extends extend here
  refine ⟨later, known, maps _ _ ?_⟩
  intro name v found
  rw [Scope.lookup?_eq_some_iff] at found ⊢
  exact continues.values name v found

/-- `BUFFER` is found in the outer table by its first four characters, and `G` still further out. It
makes no difference that `X` is defined in the outer table. -/
theorem evaluate_moreSymbols_outer :
    let f : Forest := #[⟨⟨4, [⟨"BUFF".toList, 2, none⟩]⟩, .given [(['G'], 7)]⟩, ⟨⟨8, []⟩, .table 0⟩]
    let g : Forest := f.setTable 0 ⟨4, [⟨"BUFF".toList, 2, none⟩, ⟨['X'], 5, none⟩]⟩
    let e := Excerpt.ofText "BUFFER*G".toList
    f.Sized ∧ f.Grows g ∧ ∃ s later, f.scope? 1 = some s ∧ g.scope? 1 = some later ∧
      EndsAs (Env.evaluate ⟨Settings.default, s.lookup?, fun k => k⟩ e) 0
        ⟨.ok 14, [.combined 2 .times 7], 0⟩ ∧
      EndsAs (Env.evaluate ⟨Settings.default, later.lookup?, fun k => k⟩ e) 0
        ⟨.ok 14, [.combined 2 .times 7], 0⟩ := by
  intro f g e
  have sized : f.Sized := by decide
  have grows : f.Grows g := by
    apply Relation.ReflTransGen.single
    exact ⟨0, ⟨⟨4, [⟨"BUFF".toList, 2, none⟩]⟩, [], [(['G'], 7)]⟩, _, by decide +kernel,
      ⟨['X'], ['X'], 5, none, rfl⟩, rfl⟩
  let s : Scope := ⟨⟨8, []⟩, [⟨4, [⟨"BUFF".toList, 2, none⟩]⟩], [(['G'], 7)]⟩
  have here : f.scope? 1 = some s := by decide +kernel
  obtain ⟨later, there, carries⟩ :=
    (evaluate_moreSymbols Settings.default (fun k => k) e).2 f g (.inr ⟨sized, grows⟩) 1 s here
  obtain ⟨x, ends, carried⟩ := carries 0
  have known : outcome? (Env.evaluate ⟨Settings.default, s.lookup?, fun k => k⟩ e) 0 =
      some ⟨14, [.combined 2 .times 7], 0⟩ := by decide +kernel
  obtain rfl := ends.eq_of_outcome? known
  exact ⟨sized, grows, s, later, here, there, ends, carried (by simp [Ending.Known])⟩

end Env

end AsmOperand
