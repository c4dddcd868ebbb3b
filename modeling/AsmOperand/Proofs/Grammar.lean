import AsmOperand.Proofs.Descent
import AsmOperand.Proofs.Spelling

/-!
# Evaluation is sound for the grammar

What spells an expression is evaluated to its meaning: its value, its problems in their order, and
its readings of the counter. An operand is read off the front of any text that goes on with a blank
or an operator; what stands in parentheses and what stands on the right of an operator are all of
the text that is left.
-/

namespace AsmOperand.Env

open Evaluation

/-- No word goes on into this text. -/
def Stops (rest : Text) : Prop := ∀ c ∈ rest.head?, Scan.isWordChar c = false

theorem stops_nil : Stops [] := by
  intro c hc
  cases hc

theorem stops_operator (op : Operator) (rest : Text) : Stops (op.symbol :: rest) := by
  intro c hc
  cases hc
  cases op <;> decide

theorem stops_blanks {t rest : Text} (blanks : t.isAllBlank = true) (stops : Stops rest) :
    Stops (t ++ rest) := by
  cases t with
  | nil => exact stops
  | cons c t =>
    intro d hd
    cases hd
    have blank : Text.isBlank c = true := List.all_eq_true.mp blanks c List.mem_cons_self
    rw [Scan.isWordChar, blank]
    rfl

theorem wordLength_append {c : Char} {word rest : Text}
    (plain : ∀ d ∈ c :: word, Scan.isWordChar d = true) (stops : Stops rest) :
    Scan.wordLength c (word ++ rest) = word.length := by
  obtain ⟨first, others⟩ := List.forall_mem_cons.mp plain
  have notOperator : ¬isOperator c = true := by
    simp only [Scan.isWordChar, Bool.and_eq_true, Bool.not_eq_true'] at first
    rw [first.2]
    decide
  have ends : rest.takeWhile Scan.isWordChar = [] := by
    cases rest with
    | nil => rfl
    | cons d rest =>
      rw [List.takeWhile_cons, stops d rfl]
      rfl
  rw [Scan.wordLength, if_neg notOperator, List.takeWhile_append_of_pos others, ends,
    List.append_nil]

/-- The evaluation comes to the meaning, its problems being shown wherever. -/
def Denotes (m : Evaluation Int) (k : Nat) (r : Meaning) : Prop :=
  ∃ es, Yields m k ⟨r.value, es, r.reads⟩ ∧ (problemsOf es).map Prod.fst = r.problems

section Steps
variable {env : Env} {e : Excerpt} (wf : e.WellFormed) (value : Int) {rest : Text}
include wf

theorem descend_blanks {t : Text} (blanks : t.isAllBlank = true) (ht : e.text = t ++ rest) :
    env.descend value e = env.descend value (e.tail t.length) := by
  induction t generalizing e with
  | nil => rw [List.length_nil, Excerpt.tail_zero wf]
  | cons c t ih =>
    obtain ⟨blank, others⟩ : Text.isBlank c = true ∧ Text.isAllBlank t = true := by
      simpa [Text.isAllBlank] using blanks
    obtain ⟨here, spells⟩ := Excerpt.tail_of_append wf (t := [c]) ht
    rw [List.cons_append] at ht
    rw [descend_cons value wf ht, if_pos blank]
    exact (ih here others spells).trans (by rw [Excerpt.tail_tail, Nat.add_comm]; rfl)

/-- A word is taken as a whole, although only its beginning counts if it is long. -/
theorem descend_word_clipped {w : Text} (word : OpenWord env.settings w)
    (ht : e.text = w ++ rest) (stops : Stops rest)
    (notOperator : ∀ op, Token.ofText w ≠ .operator op) :
    ∃ (token : Excerpt) (overlong : Option Excerpt),
      token.text = w.take env.settings.maxLength ∧
      (overlong = none ↔ w.length ≤ env.settings.maxLength) ∧
      env.descend value e = (do
        env.reportOverlong overlong
        let next ← env.wordValue token value
        env.descend next (e.tail w.length)) := by
  have plain := word.plain
  obtain ⟨c, cs, rfl, notOpen, notQuote⟩ := word.starts
  have isWord := plain c List.mem_cons_self
  have notBlank : ¬Text.isBlank c = true := by
    intro blank
    rw [Scan.isWordChar, blank] at isWord
    cases isWord
  have length := wordLength_append plain stops
  obtain ⟨part, spelled⟩ := Excerpt.part_between wf [] (c :: cs) ht (a := 0)
    (b := 1 + cs.length) rfl (by simp only [List.length_nil, List.length_cons]; omega)
  have kept := Scan.text_clip part env.settings.maxLength
  have whole := Scan.overlong_clip_eq_none_iff part env.settings.maxLength
  rw [spelled] at kept whole
  -- What counts starts with the same character, so it is no operator either.
  have stillWord : ∀ op, Token.ofText ((c :: cs).take env.settings.maxLength) ≠ .operator op := by
    intro op
    rw [List.take_cons env.settings.maxLength_pos, ne_eq, Token.ofText_cons_eq_operator_iff]
    exact fun symbol => notOperator op (Token.ofText_cons_eq_operator_iff.mpr symbol)
  refine ⟨_, _, kept, whole, ?_⟩
  rw [List.cons_append] at ht
  rw [descend_cons value wf ht, if_neg notBlank, if_neg notOpen, if_neg notQuote]
  -- The match on the kind of the word is decided by `stillWord`.
  simp only [length, kept, List.length_cons]

theorem descend_word {w : Text} (word : OpenWord env.settings w) (ht : e.text = w ++ rest)
    (stops : Stops rest) (short : w.length ≤ env.settings.maxLength)
    (notOperator : ∀ op, Token.ofText w ≠ .operator op) :
    ∃ token : Excerpt, token.text = w ∧ env.descend value e = (do
      let next ← env.wordValue token value
      env.descend next (e.tail w.length)) := by
  obtain ⟨token, overlong, kept, whole, step⟩ :=
    descend_word_clipped wf value word ht stops notOperator
  rw [List.take_of_length_le short] at kept
  rw [whole.mpr short, reportOverlong, pure_bind] at step
  exact ⟨token, kept, step⟩

/-- An operand that is one word comes to what the word does. -/
theorem evaluate_word (word : OpenWord env.settings e.text)
    (short : e.text.length ≤ env.settings.maxLength)
    (notOperator : ∀ op, Token.ofText e.text ≠ .operator op) :
    ∃ token : Excerpt, token.text = e.text ∧ env.evaluate e = env.wordValue token 0 := by
  have whole : e.text = e.text ++ [] := (List.append_nil _).symm
  obtain ⟨token, spelled, step⟩ := descend_word wf 0 word whole stops_nil short notOperator
  have done (next : Int) : env.descend next (e.tail e.text.length) = pure next :=
    descend_behind env next wf rfl
  simp only [done, bind_pure] at step
  exact ⟨token, spelled, by rw [evaluate_eq_descend env wf, step]⟩

theorem descend_operator (env : Env) {op : Operator} (ht : e.text = op.symbol :: rest) :
    ∃ token : Excerpt, ∀ value, env.descend value e = (do
      let right ← env.descend 0 (e.tail 1)
      env.combine op value right token) := by
  have known : isOperator op.symbol = true := by
    rw [isOperator, Operator.ofChar?_symbol]
    rfl
  have notBlank : ¬Text.isBlank op.symbol = true := by cases op <;> decide
  have notQuote : op.symbol ≠ env.settings.delimiter := by
    intro same
    rw [same, env.settings.delimiter_free] at known
    cases known
  have length : Scan.wordLength op.symbol rest = 0 := by rw [Scan.wordLength, if_pos known]
  have kind : Token.ofText [op.symbol] = .operator op := by cases op <;> rfl
  obtain ⟨kept, _, spelled⟩ := Scan.clip_part wf [] [op.symbol] ht (a := 0) (b := 1 + 0)
    rfl rfl env.settings.maxLength_pos
  refine ⟨e.sub 0 (1 + 0), ?_⟩
  intro value
  rw [descend_cons value wf ht, if_neg notBlank, if_neg op.symbol_ne_parenthesis.1, if_neg notQuote]
  simp only [length, kept, spelled, kind, reportOverlong, pure_bind]

theorem descend_string {chars : Text}
    (plain : ∀ c ∈ chars, c ≠ env.settings.delimiter ∧ c ≠ '\n')
    (seen : Text.isBlank env.settings.delimiter = false)
    (ht : e.text = env.settings.delimiter :: chars ++ env.settings.delimiter :: rest)
    (short : chars.length ≤ env.settings.maxLength) :
    env.descend value e = (do
      let packed ← env.wrap (Numeral.packed chars)
      env.descend packed (e.tail (chars.length + 2))) := by
  have notBlank : ¬Text.isBlank env.settings.delimiter = true := by
    rw [seen]
    decide
  have inside : Scan.stringChars env.settings.delimiter
      (chars ++ env.settings.delimiter :: rest) = chars := by
    rw [Scan.stringChars, List.takeWhile_append_of_pos (by simpa using plain), List.takeWhile_cons]
    simp
  have closed : (chars ++ env.settings.delimiter :: rest)[chars.length]? =
      some env.settings.delimiter := by simp
  obtain ⟨kept, _, spelled⟩ := Scan.clip_part wf [env.settings.delimiter] chars ht
    (a := 1) (b := 1 + chars.length) rfl rfl short
  rw [List.cons_append] at ht
  rw [descend_cons value wf ht, if_neg notBlank, if_neg env.settings.delimiter_ne, if_pos rfl]
  simp only [inside, kept, spelled, closed, if_true, reportUnended, reportOverlong, pure_bind]

theorem descend_group {t : Text} (nested : env.settings.nested = true) (balanced : Balanced t)
    (ht : e.text = '(' :: t ++ ')' :: rest) (short : t.length ≤ env.settings.maxLength) :
    ∃ body : Excerpt, body.WellFormed ∧ body.text = t ∧ env.descend value e = (do
      let inner ← env.descend 0 body
      env.descend inner (e.tail (t.length + 2))) := by
  have closes := balanced.groupLength?_eq rest
  obtain ⟨kept, bodyWf, spelled⟩ := Scan.clip_part wf ['('] t ht (a := 1)
    (b := 1 + t.length) rfl rfl short
  refine ⟨e.sub 1 (1 + t.length), bodyWf, spelled, ?_⟩
  rw [List.cons_append] at ht
  rw [descend_cons value wf ht, if_neg (by decide), if_pos rfl, nested]
  simp only [closes, kept, reportOverlong, pure_bind]

end Steps

section Denotes
variable {env : Env} (pos : env.settings.width.Positive) (k : Nat)
include pos

theorem denotes_wrap (v : Int) :
    Denotes (env.wrap v) k ⟨env.settings.width.wrapped v, [], k⟩ := by
  rw [wrap_eq pos]
  exact ⟨[], Yields.pure _ k, rfl⟩

theorem denotes_wordValue_number (l : Literal) {token : Excerpt} (h : token.text = l.text)
    (value : Int) :
    Denotes (env.wordValue token value) k ((Expr.number l).meaning env k) := by
  simp only [wordValue, h, l.ofText_text, l.value_text]
  exact denotes_wrap pos k l.value

theorem denotes_wordValue_counter {token : Excerpt} (h : token.text = counterMark) (value : Int) :
    Denotes (env.wordValue token value) k (Expr.counter.meaning env k) := by
  have kind : Token.ofText counterMark = .name := by decide
  simp only [wordValue, h, kind, if_true, wrap_eq pos]
  exact ⟨[], Yields.bind (Yields.readCounter env k) (Yields.pure _ _), rfl⟩

/-- An unknown name leaves the value so far, and at the start of an operand that is zero. -/
theorem denotes_wordValue_symbol {name : Text} {token : Excerpt} (h : token.text = name)
    (kind : Token.ofText name = .name) (mark : name ≠ counterMark) :
    Denotes (env.wordValue token 0) k ((Expr.symbol name).meaning env k) := by
  simp only [wordValue, h, kind, if_neg mark, lookup, Expr.meaning]
  cases env.symbols (name.take env.settings.symbolSize) with
  | some v => exact denotes_wrap pos k v
  | none =>
    exact ⟨_, Yields.bind (Yields.report _ token k) (Yields.pure _ k), rfl⟩

theorem denotes_combine {left right : Evaluation Int} {k : Nat} {a b : Meaning}
    (hl : Denotes left k a) (hr : Denotes right a.reads b) (op : Operator) (token : Excerpt)
    (held : env.settings.width.Holds a.value) :
    Denotes (do
      let lhs ← left
      let rhs ← right
      env.combine op lhs rhs token) k (Meaning.combine env.settings op a b) := by
  obtain ⟨es, yl, pl⟩ := hl
  obtain ⟨fs, yr, pr⟩ := hr
  have step := Yields.write (.combined a.value op b.value) b.reads
  obtain ⟨gs, last, pg⟩ : ∃ gs, Yields (env.combine op a.value b.value token) b.reads
      ⟨(Meaning.combine env.settings op a b).value, gs, b.reads⟩ ∧
        a.problems ++ b.problems ++ (problemsOf gs).map Prod.fst =
          (Meaning.combine env.settings op a b).problems := by
    rw [combine_eq pos b.value token (fun _ => held)]
    simp only [Meaning.combine]
    cases op.result env.settings a.value b.value with
    | ok v =>
      refine ⟨_, Yields.bind step (Yields.pure (env.settings.width.wrapped v) _), ?_⟩
      simp
    | error p =>
      refine ⟨_, Yields.bind step (Yields.bind (Yields.report p token _) (Yields.pure _ _)), ?_⟩
      simp
  refine ⟨es ++ (fs ++ gs), ?_, ?_⟩
  · rw [Meaning.reads_combine]
    exact Yields.bind yl (Yields.bind yr last)
  rw [← pg, problemsOf_append, problemsOf_append, List.map_append, List.map_append, pl, pr,
    List.append_assoc]

end Denotes

/-- The text is read off the front of an excerpt as an operand with the meaning of `x`. -/
def ReadsOperand (env : Env) (x : Expr) (t : Text) : Prop :=
  ∀ (e : Excerpt) (rest : Text), e.WellFormed → e.text = t ++ rest → Stops rest →
    ∃ step : Evaluation Int,
      env.descend 0 e = (step >>= fun v => env.descend v (e.tail t.length)) ∧
        ∀ k, Denotes step k (x.meaning env k)

/-- An excerpt with this text has the meaning of `x`. -/
def ReadsWhole (env : Env) (x : Expr) (t : Text) : Prop :=
  ∀ e : Excerpt, e.WellFormed → e.text = t → ∀ k, Denotes (env.descend 0 e) k (x.meaning env k)

def Reads (env : Env) : Form → Expr → Text → Prop
  | .operand => ReadsOperand env
  | .whole => ReadsWhole env

theorem reads_word {env : Env} {x : Expr} {w : Text} (word : Word env.settings w)
    (short : w.length ≤ env.settings.maxLength)
    (notOperator : ∀ op, Token.ofText w ≠ .operator op)
    (means : ∀ token : Excerpt, token.text = w →
      ∀ k, Denotes (env.wordValue token 0) k (x.meaning env k)) : ReadsOperand env x w := by
  intro e rest wf ht stops
  obtain ⟨token, spelled, step⟩ := descend_word wf 0 word.openWord ht stops short notOperator
  exact ⟨_, step, means token spelled⟩

theorem reads_alone {env : Env} {x : Expr} {t before after : Text} (operand : ReadsOperand env x t)
    (blanks : before.isAllBlank = true) (blanks' : after.isAllBlank = true) :
    ReadsWhole env x (before ++ t ++ after) := by
  intro e wf ht k
  rw [List.append_assoc] at ht
  obtain ⟨here, spells⟩ := Excerpt.tail_of_append wf ht
  obtain ⟨behind, left⟩ := Excerpt.tail_of_append here spells
  have stops : Stops after := by
    have none := stops_blanks blanks' stops_nil
    rwa [List.append_nil] at none
  obtain ⟨step, read, means⟩ := operand _ after here spells stops
  have done (v : Int) : env.descend v ((e.tail before.length).tail t.length) = pure v := by
    have last : ((e.tail before.length).tail t.length).text = after ++ [] := by
      rw [left, List.append_nil]
    rw [descend_blanks behind v blanks' last, descend_behind env v behind left]
  rw [descend_blanks wf 0 blanks ht, read]
  simp only [done, bind_pure]
  exact means k

section Reads
variable {env : Env} (pos : env.settings.width.Positive)
include pos

/-- An operator between what has a meaning and the rest of the text. -/
theorem denotes_operator {x : Expr} {t : Text} (rhs : ReadsWhole env x t) {op : Operator}
    {e : Excerpt} (wf : e.WellFormed) {between : Text} (blanks : between.isAllBlank = true)
    (ht : e.text = between ++ op.symbol :: t) {left : Evaluation Int} {k : Nat} {a : Meaning}
    (hl : Denotes left k a) (held : env.settings.width.Holds a.value) :
    Denotes (left >>= fun v => env.descend v e) k
      (Meaning.combine env.settings op a (x.meaning env a.reads)) := by
  obtain ⟨here, spells⟩ := Excerpt.tail_of_append wf ht
  obtain ⟨behind, right⟩ := Excerpt.tail_of_append here (t := [op.symbol]) spells
  obtain ⟨token, step⟩ := descend_operator here env spells
  have skip (v : Int) : env.descend v e = env.descend v (e.tail between.length) :=
    descend_blanks wf v blanks ht
  simp only [skip, step]
  exact denotes_combine pos hl (rhs _ behind right a.reads) op token held

/-- Nothing comes before the operator, so zero stands on its left. -/
theorem denotes_prefix {x : Expr} {t : Text} (rhs : ReadsWhole env x t) (op : Operator)
    {e : Excerpt} (wf : e.WellFormed) {between : Text} (blanks : between.isAllBlank = true)
    (ht : e.text = between ++ op.symbol :: t) (k : Nat) :
    Denotes (env.descend 0 e) k
      (Meaning.combine env.settings op ⟨0, [], k⟩ (x.meaning env k)) := by
  have zero : Denotes (pure 0) k ⟨0, [], k⟩ := ⟨[], Yields.pure 0 k, rfl⟩
  have held := Width.holds_zero env.settings.width
  have whole := denotes_operator pos rhs wf blanks ht zero held
  rwa [pure_bind] at whole

theorem reads_binary {x y : Expr} {op : Operator} {t u before between : Text}
    (lhs : ReadsOperand env x t) (rhs : ReadsWhole env y u) (blanks : before.isAllBlank = true)
    (blanks' : between.isAllBlank = true) :
    ReadsWhole env (.binary x op y) (before ++ t ++ between ++ op.symbol :: u) := by
  intro e wf ht k
  rw [List.append_assoc, List.append_assoc] at ht
  obtain ⟨here, spells⟩ := Excerpt.tail_of_append wf ht
  obtain ⟨behind, left⟩ := Excerpt.tail_of_append here spells
  have stops := stops_blanks blanks' (stops_operator op u)
  obtain ⟨step, read, means⟩ := lhs _ _ here spells stops
  rw [descend_blanks wf 0 blanks ht, read]
  exact denotes_operator pos rhs behind blanks' left (means k) (x.holds_meaning pos k)

theorem reads_of_written (nested : env.settings.nested = true) (apart : env.settings.Apart)
    {form : Form} {x : Expr} {t : Text} (h : Written env.settings form x t) :
    Reads env form x t := by
  -- Groups need whole texts and operators need operands, so both forms go in one induction.
  induction h with
  | number l short =>
    apply reads_word (l.word apart.digit) short (by simp [l.ofText_text])
    intro token spelled k
    exact denotes_wordValue_number pos k l spelled 0
  | string plain short =>
    rename_i chars
    intro e rest wf ht stops
    have quoted : e.text =
        env.settings.delimiter :: chars ++ env.settings.delimiter :: rest := by
      rw [ht, List.append_assoc, List.singleton_append]
    refine ⟨env.wrap (Numeral.packed chars), ?_, ?_⟩
    · rw [descend_string wf 0 (fun c hc => ⟨(plain c hc).1, (plain c hc).2.1⟩) apart.blank quoted
          short,
        List.length_append, List.length_cons, List.length_singleton]
    · intro k
      rw [Numeral.packed_eq]
      exact denotes_wrap pos k _
  | symbol valid plain short =>
    obtain ⟨word, kind, mark⟩ := word_of_isValidName valid plain
    apply reads_word word short (by simp [kind])
    intro token spelled k
    exact denotes_wordValue_symbol pos k spelled kind mark
  | counter =>
    have kind : Token.ofText counterMark = .name := by decide
    apply reads_word (word_counterMark apart) env.settings.maxLength_pos (by simp [kind])
    intro token spelled k
    exact denotes_wordValue_counter pos k spelled 0
  | group inner short ih =>
    rename_i x t
    intro e rest wf ht stops
    have grouped : e.text = '(' :: t ++ ')' :: rest := by
      rw [ht, List.append_assoc, List.singleton_append]
    obtain ⟨body, bodyWf, spelled, step⟩ :=
      descend_group wf 0 nested (inner.balanced apart) grouped short
    refine ⟨env.descend 0 body, ?_, ih body bodyWf spelled⟩
    rw [step, List.length_append, List.length_cons, List.length_singleton]
  | alone operand blanks blanks' ih => exact reads_alone ih blanks blanks'
  | complement rhs blanks ih =>
    intro e wf ht k
    exact denotes_prefix pos ih .complement wf blanks ht k
  | negative rhs blanks ih =>
    intro e wf ht k
    exact denotes_prefix pos ih .minus wf blanks ht k
  | binary lhs rhs blanks blanks' ihLeft ihRight =>
    exact reads_binary pos ihLeft ihRight blanks blanks'

end Reads

/-- What spells an expression is evaluated to the meaning of the expression. -/
theorem evaluate_written {env : Env} (pos : env.settings.width.Positive)
    (nested : env.settings.nested = true) (apart : env.settings.Apart) {x : Expr} {e : Excerpt}
    (wf : e.WellFormed) (written : Written env.settings .whole x e.text) (k : Nat) :
    ∃ o, Yields (env.evaluate e) k o ∧ o.value = (x.meaning env k).value ∧
      (problemsOf o.events).map Prod.fst = (x.meaning env k).problems ∧
      o.reads = (x.meaning env k).reads := by
  have reads : ReadsWhole env x e.text := reads_of_written pos nested apart written
  obtain ⟨es, yields, problems⟩ := reads e wf rfl k
  rw [evaluate_eq_descend env wf]
  exact ⟨_, yields, rfl, problems, rfl⟩

/-- The group and the sign make three times minus the string; `X` is not known. -/
theorem evaluate_written_product :
    let env : Env := ⟨{ Settings.default with nested := true }, fun _ => none, fun _ => 0⟩
    let three : Literal := ⟨.decimal, 3, [], by decide, by decide⟩
    let x : Expr := .binary (.binary (.number three) .minus (.symbol ['X'])) .times
      (.negative (.string ['A']))
    let e := Excerpt.ofText "(3-X) * -'A'".toList
    env.settings.width.Positive ∧ env.settings.nested = true ∧ env.settings.Apart ∧ e.WellFormed ∧
      Written env.settings .whole x e.text ∧
      ∃ o, Yields (env.evaluate e) 0 o ∧ o.value = -195 ∧
        (problemsOf o.events).map Prod.fst = [.undefinedSymbol ['X']] ∧ o.reads = 0 := by
  intro env three x e
  have pos : env.settings.width.Positive := by decide
  have apart : env.settings.Apart := ⟨by decide, by decide, by decide, by decide⟩
  have wf : e.WellFormed := Excerpt.wellFormed_ofText _
  have number : Written env.settings .operand (.number three) ['3'] :=
    Written.number three (by decide)
  have symbol : Written env.settings .whole (.symbol ['X']) ([] ++ ['X'] ++ []) :=
    .alone (.symbol (by decide) (List.forall_mem_singleton.mpr (by decide)) (by decide)) rfl rfl
  have group : Written env.settings .operand (.binary (.number three) .minus (.symbol ['X']))
      "(3-X)".toList :=
    .group (t := [] ++ ['3'] ++ [] ++ '-' :: ['X']) (.binary number symbol rfl rfl) (by decide)
  have string : Written env.settings .whole (.string ['A']) ([] ++ "'A'".toList ++ []) :=
    .alone (.string (List.forall_mem_singleton.mpr (by decide)) (by decide)) rfl rfl
  have negative : Written env.settings .whole (.negative (.string ['A']))
      ([' '] ++ '-' :: "'A'".toList) :=
    .negative string rfl
  have product : Written env.settings .whole x
      ([] ++ "(3-X)".toList ++ [' '] ++ '*' :: " -'A'".toList) :=
    .binary group negative rfl rfl
  have written : Written env.settings .whole x e.text := by
    rw [Excerpt.text_ofText]
    exact product
  obtain ⟨o, yields, value, problems, reads⟩ := evaluate_written pos rfl apart wf written 0
  have meaning : (x.meaning env 0).value = -195 ∧
      (x.meaning env 0).problems = [.undefinedSymbol ['X']] ∧ (x.meaning env 0).reads = 0 := by
    decide +kernel
  obtain ⟨known, unknown, none⟩ := meaning
  exact ⟨pos, rfl, apart, wf, written, o, yields, value.trans known, problems.trans unknown,
    reads.trans none⟩

end AsmOperand.Env
