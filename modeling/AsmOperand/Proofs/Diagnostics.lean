import AsmOperand.Proofs.Ledgers
import AsmOperand.Proofs.Writing

/-!
# Where problems are shown

Every problem of an operand is shown by one excerpt, which is a part of the operand. What the
excerpt spells fits the problem: the parenthesis that is not closed and what follows it, the string
up to the end of its line, all of what was too long, the name that is not known, the operator that
could not be applied.
-/

namespace AsmOperand

/-- A part of another excerpt. -/
structure Excerpt.Within (e whole : Excerpt) : Prop where
  path : e.path = whole.path
  lineNumber : e.lineNumber = whole.lineNumber
  line : e.line = whole.line
  start : whole.start ≤ e.start
  forward : e.start ≤ e.stop
  stop : e.stop ≤ whole.stop

namespace Excerpt

section Within
variable {e whole : Excerpt}

theorem within_refl (wf : e.WellFormed) : e.Within e :=
  ⟨rfl, rfl, rfl, Int.le_refl _, wf.2.1, Int.le_refl _⟩

theorem Within.sub (within : e.Within whole) (wf : e.WellFormed) {a b : Nat}
    (ha : a ≤ e.text.length) (hb : b ≤ e.text.length) : (e.sub a b).Within whole := by
  have len := length_eq wf
  obtain ⟨path, lineNumber, line, start, forward, stop⟩ := within
  simp only [length] at len
  refine ⟨path, lineNumber, line, ?_, ?_, ?_⟩
  · simp only [Excerpt.sub, withSpan]
    omega
  · simp only [Excerpt.sub, withSpan]
    omega
  · simp only [Excerpt.sub, withSpan]
    omega

theorem Within.tail (within : e.Within whole) (wf : e.WellFormed) {a : Nat}
    (ha : a ≤ e.text.length) : (e.tail a).Within whole :=
  within.sub wf ha (by rw [length_eq wf]; omega)

theorem Within.clip (within : e.Within whole) (wf : e.WellFormed) (limit : Nat) :
    (Scan.clip limit e).kept.Within whole := by
  have len := length_eq wf
  simp only [Scan.clip]
  split
  · exact within
  · exact within.sub wf (Nat.zero_le _) (by omega)

end Within

end Excerpt

/-- What the excerpt that shows a problem spells. The message follows from the text wherever it
says more than the kind of the problem. -/
def Problem.ShownBy (p : Problem) (env : Env) (t : Text) : Prop :=
  match p.kind? with
  | some .missingParenthesis => t.head? = some '('
  | some .missingQuote =>
    ∃ chars, t = env.settings.delimiter :: chars ∧
      ∀ c ∈ chars, c ≠ env.settings.delimiter ∧ c ≠ '\n'
  | some .tooLong =>
    env.settings.maxLength < t.length ∧
      p.message = s!"token too long: {t.length} characters, maximum is {env.settings.maxLength}"
  | some .undefinedSymbol =>
    t ≠ [] ∧ t.length ≤ env.settings.maxLength ∧
      (∀ c ∈ t, Text.isBlank c = false ∧ isOperator c = false) ∧
      p.message = "undefined symbol: " ++ String.ofList (t.take env.settings.symbolSize) ∧
      env.symbols (t.take env.settings.symbolSize) = none
  | some .divisionByZero => t = ['/'] ∨ t = ['%']
  | some .outOfRange => t = ['<'] ∨ t = ['>']
  | none => False

/-- If the event is a problem, a part of `whole` shows it. -/
def Event.Points (env : Env) (whole : Excerpt) : Event → Prop
  | .problem p shown => shown.Within whole ∧ p.ShownBy env shown.text
  | .combined _ _ _ => True

/-- Division and shifts are the only operators that can fail. -/
theorem Operator.shownBy_of_result (env : Env) {op : Operator} {lhs rhs : Int} {p : Problem}
    (h : op.result env.settings lhs rhs = .error p) : p.ShownBy env [op.symbol] := by
  cases op with
  | divide =>
    simp only [result] at h
    split at h
    · cases h
      exact Or.inl rfl
    · cases h
  | modulo =>
    simp only [result] at h
    split at h
    · cases h
      exact Or.inr rfl
    · cases h
  | shiftLeft =>
    simp only [result] at h
    split at h
    · cases h
      exact Or.inl rfl
    · split at h
      · cases h
        exact Or.inl rfl
      · cases h
  | shiftRight =>
    simp only [result] at h
    split at h
    · cases h
      exact Or.inr rfl
    · cases h
  | minus => cases h
  | plus => cases h
  | times => cases h
  | or => cases h
  | and => cases h
  | xor => cases h
  | complement => cases h

namespace Env

section Points
variable (env : Env) {e whole : Excerpt} (wf : e.WellFormed) (within : e.Within whole)
include wf within

theorem admitsOverlong_clip :
    env.AdmitsOverlong (Event.Points env whole) (Scan.clip env.settings.maxLength e).overlong := by
  have len := Excerpt.length_eq wf
  intro x hx
  simp only [Scan.clip] at hx
  split at hx
  · cases hx
  · rename_i long
    cases hx
    refine ⟨within, ?_, ?_⟩
    · omega
    · rw [len]
      rfl

end Points

section Start
variable (env : Env) {e whole : Excerpt} (wf : e.WellFormed) (within : e.Within whole) {i : Nat}
  {c : Char} {rest : Text} (ht : e.text.drop i = c :: rest)
include wf within ht

/-- What runs from a delimiter to the end of its line spells that. -/
theorem admitsUnended_start (quote : c = env.settings.delimiter) :
    AdmitsUnended (Event.Points env whole)
      (some (e.sub i (i + 1 + (Scan.stringChars env.settings.delimiter rest).length))) := by
  have inside := Scan.length_stringChars_le env.settings.delimiter rest
  obtain ⟨_, _, room, _⟩ := Excerpt.start_of_drop wf ht
  obtain ⟨_, spelled⟩ := Excerpt.part_from wf ht inside
  rintro x ⟨⟩
  refine ⟨within.sub wf (by omega) (by omega), ?_⟩
  refine ⟨Scan.stringChars env.settings.delimiter rest, ?_, ?_⟩
  · rw [spelled, Scan.take_stringChars, quote]
  · intro d hd
    simpa using List.mem_takeWhile_imp hd

/-- What counts of a word: its first character and others that belong to words. -/
theorem kept_word : ∃ others : Text,
    (Scan.clip env.settings.maxLength (e.sub i (i + 1 + Scan.wordLength c rest))).kept.Within whole ∧
    (Scan.clip env.settings.maxLength (e.sub i (i + 1 + Scan.wordLength c rest))).kept.text =
      c :: others ∧
    (c :: others).length ≤ env.settings.maxLength ∧
    ∀ d ∈ others, d ∈ rest.take (Scan.wordLength c rest) := by
  have inside := Scan.wordLength_le c rest
  obtain ⟨_, _, room, _⟩ := Excerpt.start_of_drop wf ht
  obtain ⟨part, spelled⟩ := Excerpt.part_from wf ht inside
  -- The limit leaves at least the first character.
  have positive := env.settings.maxLength_pos
  refine ⟨(rest.take (Scan.wordLength c rest)).take (env.settings.maxLength - 1), ?_, ?_, ?_, ?_⟩
  · exact (within.sub wf (by omega) (by omega)).clip part _
  · rw [Scan.text_clip part, spelled, List.take_cons positive]
  · have cut := List.length_take_le (env.settings.maxLength - 1)
      (rest.take (Scan.wordLength c rest))
    rw [List.length_cons]
    omega
  · exact fun d hd => List.mem_of_mem_take hd

theorem admitsWord_start (notBlank : ¬Text.isBlank c = true) :
    env.AdmitsWord (Event.Points env whole)
      (Scan.clip env.settings.maxLength (e.sub i (i + 1 + Scan.wordLength c rest))).kept := by
  obtain ⟨others, here, left, short, plain⟩ := env.kept_word wf within ht
  rw [AdmitsWord, left]
  cases kind : Token.ofText (c :: others) with
  | operator op =>
    have symbol := Token.ofText_cons_eq_operator_iff.mp kind
    have alone : others = [] := by
      have none : Scan.wordLength c rest = 0 := by
        rw [Scan.wordLength, if_pos (isOperator_iff.mpr ⟨op, symbol⟩)]
      rw [none] at plain
      exact List.eq_nil_iff_forall_not_mem.mpr fun d hd => List.not_mem_nil (plain d hd)
    intro lhs rhs _ _
    refine ⟨trivial, fun p failed => ⟨here, ?_⟩⟩
    rw [left, alone, ← symbol]
    exact Operator.shownBy_of_result env failed
  | numeral r => trivial
  | name =>
    have free : isOperator c = false := by
      rw [Bool.eq_false_iff]
      intro known
      obtain ⟨op, symbol⟩ := isOperator_iff.mp known
      rw [Token.ofText_cons_eq_operator_iff.mpr symbol] at kind
      cases kind
    intro unknown
    refine ⟨here, ?_⟩
    rw [left] at unknown ⊢
    refine ⟨List.cons_ne_nil c others, short, ?_, rfl, unknown⟩
    intro d hd
    rcases List.mem_cons.mp hd with rfl | hd
    · exact ⟨by simpa using notBlank, free⟩
    · have inWord := Scan.isWordChar_of_mem_take (plain d hd)
      simpa [Scan.isWordChar] using inWord

end Start

/-- Wherever the scan of a part of `whole` goes on, problems are shown by parts of `whole`. -/
theorem admits_points (env : Env) {e whole : Excerpt} (wf : e.WellFormed)
    (within : e.Within whole) {i : Nat} {t : Text} (ht : e.text.drop i = t) :
    env.Admits (Event.Points env whole) (Scan.ofChars env.settings e i t) := by
  fun_induction Scan.ofChars env.settings e i t with
  | case1 e i => trivial
  | case2 e i c rest blank ih =>
    obtain ⟨_, _, _, next⟩ := Excerpt.start_of_drop wf ht
    exact ih wf within (next 0)
  | case3 e i rest closes notBlank =>
    obtain ⟨_, spells, room, _⟩ := Excerpt.start_of_drop wf ht
    refine ⟨within.tail wf (by omega), ?_⟩
    rw [spells]
    rfl
  | case4 e i rest n closes body notBlank ihBody ihRest =>
    obtain ⟨_, _, room, next⟩ := Excerpt.start_of_drop wf ht
    have inside := Scan.lt_length_of_groupLength? closes
    obtain ⟨part, _⟩ := Excerpt.part_behind wf ht (Nat.le_of_lt inside)
    have here := within.sub wf (a := i + 1) (b := i + 1 + n) (by omega) (by omega)
    refine ⟨env.admitsOverlong_clip part here, ?_, ihRest wf within (next (n + 1))⟩
    exact ihBody (Scan.wellFormed_clip part _) (here.clip part _) rfl
  | case5 e i rest n body closed notBlank notOpen ih =>
    obtain ⟨_, _, room, next⟩ := Excerpt.start_of_drop wf ht
    have inside := Scan.length_stringChars_le env.settings.delimiter rest
    obtain ⟨part, _⟩ := Excerpt.part_behind wf ht inside
    have here := within.sub wf (a := i + 1) (b := i + 1 + n) (by omega) (by omega)
    refine ⟨?_, env.admitsOverlong_clip part here, ih wf within (next (n + 1))⟩
    rintro x ⟨⟩
  | case6 e i rest n body closed notBlank notOpen ih =>
    obtain ⟨_, _, room, next⟩ := Excerpt.start_of_drop wf ht
    have inside := Scan.length_stringChars_le env.settings.delimiter rest
    obtain ⟨part, _⟩ := Excerpt.part_behind wf ht inside
    have here := within.sub wf (a := i + 1) (b := i + 1 + n) (by omega) (by omega)
    exact ⟨env.admitsUnended_start wf within ht rfl, env.admitsOverlong_clip part here,
      ih wf within (next n)⟩
  | case7 e i c rest notBlank notOpen notQuote n token ih =>
    obtain ⟨_, _, room, next⟩ := Excerpt.start_of_drop wf ht
    have inside := Scan.wordLength_le c rest
    obtain ⟨part, _⟩ := Excerpt.part_from wf ht inside
    have here := within.sub wf (a := i) (b := i + 1 + n) (by omega) (by omega)
    exact ⟨env.admitsOverlong_clip part here, env.admitsWord_start wf within ht notBlank,
      ih wf within (next n)⟩

theorem evaluate_points {env : Env} (pos : env.settings.width.Positive) {e : Excerpt}
    (wf : e.WellFormed) :
    Ends env.settings.width.Holds (Event.Points env e) (env.evaluate e) :=
  evaluate_ends pos wf (admits_points env wf (Excerpt.within_refl wf) List.drop_zero)

end Env

/-- A ledger gets one report for each problem, in order, with the excerpt that shows it. -/
theorem Desk.reportsSince_enterAll (d : Desk) (name : Ledger.Name) (events : List Event) :
    ((d.enterAll name events.toArray).ledger name).reportsSince (d.ledger name).reports.size =
      (problemsOf events).map fun q => ⟨q.1, [q.2]⟩ := by
  rw [(d.adds_enterAll name name events).reportsSince, if_pos rfl]

/-- What a ledger gets from the evaluation of an operand: each report has one excerpt, which is a
part of the operand and spells what the problem is about. -/
theorem Env.evaluate_reports {env : Env} (pos : env.settings.width.Positive) {e : Excerpt}
    (wf : e.WellFormed) (k : Nat) (d : Desk) (name : Ledger.Name) :
    ∃ o, Yields (env.evaluate e) k o ∧
      ∀ r ∈ ((d.enterAll name o.events.toArray).ledger name).reportsSince
          (d.ledger name).reports.size,
        ∃ shown, r.excerpts = [shown] ∧ shown.Within e ∧ r.problem.ShownBy env shown.text := by
  obtain ⟨o, yields, _, points⟩ := evaluate_points pos wf k
  refine ⟨o, yields, ?_⟩
  intro r hr
  rw [Desk.reportsSince_enterAll] at hr
  obtain ⟨⟨p, shown⟩, hq, rfl⟩ := List.mem_map.mp hr
  obtain ⟨event, he, problem⟩ := List.mem_filterMap.mp hq
  cases event with
  | problem p' shown' =>
    cases problem
    exact ⟨shown, rfl, points _ he⟩
  | combined lhs op rhs => cases problem

/-- An operand at the end of a line, with a division by zero, an unknown name, a count below zero, a
string that its line ends before and a group that nothing closes. -/
theorem Env.evaluate_reports_line :
    let env : Env := ⟨Settings.default, fun _ => none, fun _ => 0⟩
    let e : Excerpt := ⟨"test.asm", some 3, "  LD A,(1/0)UNKNOWN<-1 'ab\n(2".toList, 7, 29⟩
    env.settings.width.Positive ∧ e.WellFormed ∧
      ∃ o, Yields (env.evaluate e) 0 o ∧
        ∀ r ∈ (((({} : Desk).enterAll .a o.events.toArray).ledger .a).reportsSince 0),
          ∃ shown, r.excerpts = [shown] ∧ shown.Within e ∧ r.problem.ShownBy env shown.text := by
  intro env e
  have pos : env.settings.width.Positive := by decide
  have wf : e.WellFormed := by decide
  exact ⟨pos, wf, evaluate_reports pos wf 0 {} .a⟩

end AsmOperand
