import AsmOperand.Proofs.Grammar

/-!
# Which delimiters open strings

The delimiter comes behind the blanks and the opening parenthesis when a pass decides what stands
before it. Settings have no delimiter that is the parenthesis, but they may have a blank one. A
blank delimiter is passed over like any other blank, so that nothing is ever a string; every other
delimiter makes strings, a digit, a letter, the mark of the location counter and the closing
parenthesis among them.
-/

namespace AsmOperand.Env

open Evaluation

/-- A short text between two delimiters is a string: its characters are packed, and whatever they
are, nothing is wrong with them. -/
def Quotes (env : Env) : Prop :=
  ∀ (chars : Text) (e : Excerpt) (k : Nat), chars.length ≤ env.settings.maxLength →
    (∀ c ∈ chars, c ≠ env.settings.delimiter ∧ c ≠ '\n') → e.WellFormed →
    e.text = env.settings.delimiter :: chars ++ [env.settings.delimiter] →
      Yields (env.evaluate e) k ⟨env.settings.width.wrapped (Numeral.packed chars), [], k⟩

theorem quotes_of_seen {env : Env} (pos : env.settings.width.Positive)
    (seen : Text.isBlank env.settings.delimiter = false) : env.Quotes := by
  intro chars e k short plain wf ht
  have quoted := descend_string wf 0 plain seen ht short
  have done := descend_behind env (env.settings.width.wrapped (Numeral.packed chars)) wf ht
  rw [List.length_append, List.length_cons, List.length_singleton] at done
  rw [evaluate_eq_descend env wf, quoted, wrap_eq pos, pure_bind, done]
  exact Yields.pure _ k

/-- Behind a blank a parenthesis opens a group, and it is reported if nothing closes that. -/
theorem evaluate_blank_open (env : Env) {e : Excerpt} (wf : e.WellFormed) {c d : Char}
    (blank : Text.isBlank c = true) (notClose : d ≠ ')') (ht : e.text = [c, '(', d]) (k : Nat) :
    Yields (env.evaluate e) k ⟨0, [.problem .missingParenthesis (e.tail 1)], k⟩ := by
  obtain ⟨here, spells⟩ := Excerpt.tail_of_append wf (t := [c]) ht
  have lasts : Scan.groupLength? env.settings.nested 0 [d] = none := by
    simp [Scan.groupLength?, notClose]
  rw [evaluate_eq_descend env wf, descend_cons 0 wf ht, if_pos blank]
  rw [List.length_singleton] at here spells
  rw [descend_cons 0 here spells, if_neg (by decide), if_pos rfl, lasts]
  exact Yields.bind (f := fun _ => pure 0) (Yields.report _ _ k) (Yields.pure 0 k)

/-- Of the delimiters that settings may have, exactly those that are no blanks delimit strings. -/
theorem quotes_iff {env : Env} (pos : env.settings.width.Positive) :
    env.Quotes ↔ Text.isBlank env.settings.delimiter = false := by
  constructor
  · intro quotes
    cases blank : Text.isBlank env.settings.delimiter with
    | false => rfl
    | true =>
      -- Behind a blank the parenthesis opens a group, and nothing closes it.
      have notClose : env.settings.delimiter ≠ ')' := by
        intro same
        rw [same] at blank
        cases blank
      have plain : ∀ c ∈ ['('], c ≠ env.settings.delimiter ∧ c ≠ '\n' :=
        List.forall_mem_singleton.mpr ⟨env.settings.delimiter_ne.symm, by decide⟩
      have ht := Excerpt.text_ofText [env.settings.delimiter, '(', env.settings.delimiter]
      have wf := Excerpt.wellFormed_ofText [env.settings.delimiter, '(', env.settings.delimiter]
      have string := quotes ['('] _ 0 env.settings.maxLength_pos plain wf ht
      have opened := evaluate_blank_open env wf blank notClose ht 0
      have events := congrArg Outcome.events (string.unique opened)
      cases events
  · exact quotes_of_seen pos

/-- A digit delimits strings as well: `1AB1` is a string, and not a word. -/
theorem quotes_iff_digit :
    let env : Env := ⟨{ Settings.default with
      delimiter := '1', delimiter_ne := by decide, delimiter_free := by decide },
      fun _ => none, fun _ => 0⟩
    env.settings.width.Positive ∧ Text.isBlank env.settings.delimiter = false ∧ env.Quotes ∧
      Yields (env.evaluate (.ofText "1AB1".toList)) 0 ⟨0x4142, [], 0⟩ := by
  intro env
  have pos : env.settings.width.Positive := by decide
  have quotes := (quotes_iff pos).mpr (by decide)
  have plain : ∀ c ∈ "AB".toList, c ≠ '1' ∧ c ≠ '\n' := by simp
  have ab := quotes "AB".toList (.ofText "1AB1".toList) 0 (by decide) plain
    (Excerpt.wellFormed_ofText _) (by decide)
  have packed : env.settings.width.wrapped (Numeral.packed "AB".toList) = 0x4142 := by decide
  rw [packed] at ab
  exact ⟨pos, by decide, quotes, ab⟩

/-- Settings may have a space as their delimiter; the text between two spaces is then evaluated, and
not packed. -/
theorem not_quotes_space :
    ∃ s, Settings.ofFields 8 128 [' '] (.bits 32) false = .ok s ∧ s.width.Positive ∧
      let env : Env := ⟨s, fun _ => none, fun _ => 0⟩
      ¬env.Quotes ∧
        (∃ es, Yields (env.evaluate (.ofText " 1 ".toList)) 0 ⟨1, es, 0⟩) ∧
        ∀ es, ¬Yields (env.evaluate (.ofText " 1 ".toList)) 0
          ⟨s.width.wrapped (Numeral.packed ['1']), es, 0⟩ := by
  refine ⟨_, rfl, by decide, ?_⟩
  intro env
  let one : Literal := ⟨.decimal, 1, [], by decide, by decide⟩
  have pos : env.settings.width.Positive := by decide
  have kind : Token.ofText ['1'] = .numeral .decimal := by decide
  have word : ReadsOperand env (.number one) ['1'] :=
    reads_word (one.word (by decide)) (by decide) (by simp [kind])
      fun token spelled k => denotes_wordValue_number pos k one spelled 0
  have whole : ReadsWhole env (.number one) " 1 ".toList := by
    have spaced : ReadsWhole env (.number one) ([' '] ++ ['1'] ++ [' ']) :=
      reads_alone word rfl rfl
    exact spaced
  have wf := Excerpt.wellFormed_ofText " 1 ".toList
  obtain ⟨es, yields, _⟩ := whole (.ofText " 1 ".toList) wf (Excerpt.text_ofText _) 0
  have value : ((Expr.number one).meaning env 0).value = 1 := by decide
  rw [← evaluate_eq_descend env wf, value] at yields
  have other : ∀ es, ¬Yields (env.evaluate (.ofText " 1 ".toList)) 0
      ⟨env.settings.width.wrapped (Numeral.packed ['1']), es, 0⟩ := by
    intro fs packed
    have code : env.settings.width.wrapped (Numeral.packed ['1']) = 49 := by decide
    rw [code] at packed
    cases packed.unique yields
  refine ⟨?_, ⟨es, yields⟩, other⟩
  intro quotes
  have plain : ∀ c ∈ ['1'], c ≠ ' ' ∧ c ≠ '\n' := List.forall_mem_singleton.mpr (by decide)
  have string := quotes ['1'] (.ofText " 1 ".toList) 0 (by decide) plain wf (by decide)
  exact other [] string

end AsmOperand.Env
