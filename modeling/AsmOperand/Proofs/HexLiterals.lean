import AsmOperand.Proofs.Grammar

/-!
# Hexadecimal literals are read back

The literal that is written for a value is an operand, and its value is the one that the register
holds for the value written. A literal that is longer than the length limit, its sign apart, is
reported. Every literal is a number in the sense of the grammar, or such a number behind a minus.
-/

namespace AsmOperand

namespace Hex

/-- A text without the sign before it. -/
def unsigned : Text → Text
  | '-' :: rest => rest
  | t => t

theorem reversedDigits_eq (n : Nat) : reversedDigits n = (Nat.digits 16 n).map digit := by
  fun_induction reversedDigits n with
  | case1 => rw [Nat.digits_zero, List.map_nil]
  | case2 n positive ih =>
    rw [Nat.digits_def' (by decide) (Nat.pos_of_ne_zero positive), List.map_cons, ih]

/-- The digits that are written, as numbers, the highest one first. -/
def values (places n : Nat) : List Nat :=
  List.replicate (max places 1 - (Nat.digits 16 n).length) 0 ++ (Nat.digits 16 n).reverse

theorem digits_eq (places n : Nat) : digits places n = (values places n).map digit := by
  have zero : digit 0 = '0' := by decide
  simp only [digits, values, reversedDigits_eq, List.map_append, List.map_replicate, zero,
    List.map_reverse, List.length_reverse, List.length_map]

theorem values_lt (places n : Nat) : ∀ d ∈ values places n, d < 16 :=
  Numeral.padded_lt (by decide) _ n

theorem ofDigits_values (places n : Nat) : Nat.ofDigits 16 (values places n).reverse = n :=
  Numeral.ofDigits_padded 16 _ n

theorem values_ne_nil (places n : Nat) : values places n ≠ [] := by
  intro none
  have length := congrArg List.length none
  rw [values, List.length_append, List.length_replicate, List.length_reverse,
    List.length_nil] at length
  omega

theorem isDigit_digit : ∀ d < 16, (digit d).isDigit = decide (d < 10) := by decide

/-- What is written behind the sign is a number that the grammar knows. -/
theorem exists_literal (places n : Nat) : ∃ l : Literal, l.value = n ∧
    l.text = guardLetter (digits places n) ++ ['H'] := by
  obtain ⟨first, others, split⟩ := List.exists_cons_of_ne_nil (values_ne_nil places n)
  have small := values_lt places n
  have value := ofDigits_values places n
  rw [split] at small value
  have bound := small first List.mem_cons_self
  rw [digits_eq, split, List.map_cons, guardLetter, isDigit_digit first bound]
  by_cases low : first < 10
  · refine ⟨⟨.hexadecimal, first, others, low, small⟩, value, ?_⟩
    rw [decide_eq_true low, if_pos rfl]
    rfl
  · refine ⟨⟨.hexadecimal, 0, first :: others, by decide, ?_⟩, ?_, ?_⟩
    · intro d hd
      rcases List.mem_cons.mp hd with rfl | hd
      · decide
      · exact small d hd
    · have padded := Nat.ofDigits_append_zero (b := 16) (first :: others).reverse
      rw [← List.reverse_cons] at padded
      exact padded.trans value
    · rw [decide_eq_false low, if_neg (by decide)]
      rfl

/-- Without a limit the number is how far the value is from zero. -/
theorem literal?_unlimited (v : Int) : ∃ l : Literal, l.value = v.natAbs ∧
    literal? .unlimited v = some ((if v < 0 then ['-'] else []) ++ l.text) := by
  obtain ⟨l, value, text⟩ := exists_literal 0 v.natAbs
  exact ⟨l, value, by rw [text, literal?, List.append_assoc]⟩

/-- With a limit the number has the bits of the value, as far as there is room for them. -/
theorem literal?_bits {n : Int} (positive : 1 ≤ n) (v : Int) : ∃ l : Literal,
    (Width.bits n).wrapped l.value = (Width.bits n).wrapped v ∧
      literal? (.bits n) v = some l.text := by
  obtain ⟨l, value, text⟩ := exists_literal ((n.toNat + 3) / 4) (v % Nat.pow 2 n.toNat).toNat
  refine ⟨l, ?_, by rw [text, literal?, if_neg (by omega)]⟩
  have room : (0 : Int) < 2 ^ n.toNat := by positivity
  have bits : (l.value : Int) = v % 2 ^ n.toNat := by
    rw [value, Nat.pow_eq, Nat.cast_pow, Nat.cast_ofNat,
      Int.toNat_of_nonneg (Int.emod_nonneg v room.ne')]
  have whole : ((2 ^ n.toNat : Nat) : Int) = 2 ^ n.toNat := by rw [Nat.cast_pow, Nat.cast_ofNat]
  rw [Width.wrapped, Width.wrapped, bits, ← whole, Int.emod_bmod]

theorem unsigned_text (l : Literal) : unsigned l.text = l.text := by
  have digit := isDecimalDigit_digit l.first l.first_lt
  have notMinus : Hex.digit l.first ≠ '-' := by
    intro same
    rw [same] at digit
    cases digit
  simp only [Literal.text, Literal.digits, List.map_cons, List.cons_append]
  unfold unsigned
  split
  · rename_i same
    exact absurd (List.cons.inj same).1 notMinus
  · rfl

end Hex

namespace Env

open Evaluation

/-- The evaluation has problems unless `short`, and then it comes to the value. -/
def Answers (m : Evaluation Int) (short : Prop) (value : Int) : Prop :=
  ∀ k, ∃ o, Yields m k o ∧ (problemsOf o.events = [] ↔ short) ∧ (short → o.value = value)

section Answers
variable {env : Env} (pos : env.settings.width.Positive)
include pos

/-- Whatever is left of a word, it comes to a value. -/
theorem exists_wordValue (token : Excerpt) (k : Nat) :
    ∃ o, Yields (env.wordValue token 0) k o := by
  have anything : env.AdmitsWord (fun _ => True) token := by
    rw [AdmitsWord]
    cases Token.ofText token.text with
    | operator op => exact fun _ _ _ _ => ⟨trivial, fun _ _ => trivial⟩
    | numeral r => trivial
    | name => exact fun _ => trivial
  obtain ⟨o, yields, _, _⟩ :=
    wordValue_ofParts (Ends.ofParts env _) pos anything (Width.holds_zero _) k
  exact ⟨o, yields⟩

theorem answers_literal (digit : Numeral.isDecimalDigit env.settings.delimiter = false)
    (l : Literal) {e : Excerpt} (wf : e.WellFormed) (ht : e.text = l.text) :
    Answers (env.descend 0 e) (l.text.length ≤ env.settings.maxLength)
      (env.settings.width.wrapped l.value) := by
  have notOperator : ∀ op, Token.ofText l.text ≠ .operator op := by simp [l.ofText_text]
  have alone : e.text = l.text ++ [] := by rw [ht, List.append_nil]
  obtain ⟨token, overlong, kept, whole, step⟩ :=
    descend_word_clipped wf 0 (l.word digit).openWord alone stops_nil notOperator
  have done (v : Int) : env.descend v (e.tail l.text.length) = pure v := descend_behind env v wf ht
  simp only [done, bind_pure] at step
  rw [step]
  intro k
  by_cases short : l.text.length ≤ env.settings.maxLength
  · rw [List.take_of_length_le short] at kept
    rw [whole.mpr short, reportOverlong, pure_bind]
    simp only [wordValue, kept, l.ofText_text, l.value_text, wrap_eq pos]
    exact ⟨_, Yields.pure _ k, iff_of_true rfl short, fun _ => rfl⟩
  · obtain ⟨shown, cut⟩ := Option.ne_none_iff_exists'.mp (mt whole.mp short)
    rw [cut]
    obtain ⟨o, rest⟩ := exists_wordValue pos token k
    refine ⟨_, Yields.bind (Yields.report _ shown k) rest, iff_of_false ?_ short, ?_⟩
    · simp
    · exact fun h => absurd h short

/-- A minus in front changes nothing but the sign. -/
theorem answers_minus {right : Evaluation Int} {short : Prop} {a : Int}
    (h : Answers right short a) (token : Excerpt) :
    Answers (right >>= fun v => env.combine .minus 0 v token) short
      (env.settings.width.wrapped (0 - a)) := by
  intro k
  obtain ⟨o, yields, problems, value⟩ := h k
  have step : Yields (env.combine .minus 0 o.value token) o.reads
      ⟨env.settings.width.wrapped (0 - o.value), [.combined 0 .minus o.value], o.reads⟩ := by
    rw [combine_eq pos o.value token (fun none => by cases none)]
    exact Yields.bind (Yields.write _ _) (Yields.pure _ _)
  refine ⟨_, Yields.bind yields step, ?_, ?_⟩
  · rw [problemsOf_append, problemsOf_combined, problemsOf_nil, List.append_nil]
    exact problems
  · intro h
    rw [value h]

section Number
variable (digit : Numeral.isDecimalDigit env.settings.delimiter = false) (l : Literal)
include digit

theorem answers_number : Answers (env.evaluate (.ofText l.text))
    (l.text.length ≤ env.settings.maxLength) (env.settings.width.wrapped l.value) := by
  have wf := Excerpt.wellFormed_ofText l.text
  rw [evaluate_eq_descend env wf]
  exact answers_literal pos digit l wf (Excerpt.text_ofText _)

theorem answers_negative : Answers (env.evaluate (.ofText ('-' :: l.text)))
    (l.text.length ≤ env.settings.maxLength)
    (env.settings.width.wrapped (0 - env.settings.width.wrapped l.value)) := by
  have wf := Excerpt.wellFormed_ofText ('-' :: l.text)
  have spelled : (Excerpt.ofText ('-' :: l.text)).text = Operator.minus.symbol :: l.text :=
    Excerpt.text_ofText _
  obtain ⟨token, step⟩ := descend_operator wf env spelled
  obtain ⟨behind, number⟩ := Excerpt.tail_of_append wf (t := ['-']) spelled
  rw [evaluate_eq_descend env wf, step]
  exact answers_minus pos (answers_literal pos digit l behind number) token

end Number

theorem answers_hex (digit : Numeral.isDecimalDigit env.settings.delimiter = false) (v : Int) :
    ∃ t, Hex.literal? env.settings.width v = some t ∧
      Answers (env.evaluate (.ofText t)) ((Hex.unsigned t).length ≤ env.settings.maxLength)
        (env.settings.width.wrapped v) := by
  cases width : env.settings.width with
  | bits n =>
    have room : 1 ≤ n := by rwa [width] at pos
    obtain ⟨l, same, text⟩ := Hex.literal?_bits room v
    have number := answers_number pos digit l
    rw [width, same] at number
    exact ⟨l.text, text, by rwa [Hex.unsigned_text]⟩
  | unlimited =>
    obtain ⟨l, distance, text⟩ := Hex.literal?_unlimited v
    by_cases negative : v < 0
    · have number := answers_negative pos digit l
      rw [if_pos negative] at text
      have value : 0 - (l.value : Int) = v := by omega
      rw [width, Width.wrapped, Width.wrapped, value] at number
      exact ⟨'-' :: l.text, text, number⟩
    · have number := answers_number pos digit l
      rw [if_neg negative] at text
      have value : (l.value : Int) = v := by omega
      rw [width, value] at number
      exact ⟨l.text, text, by rwa [Hex.unsigned_text]⟩

end Answers

/-- The literal for a value is read without a problem exactly if it is within the limit, its sign
apart, and then its value is the one that is held for the value it was written for. -/
theorem evaluate_literal {env : Env} (pos : env.settings.width.Positive)
    (digit : Numeral.isDecimalDigit env.settings.delimiter = false) (v : Int) (k : Nat) :
    ∃ t o, Hex.literal? env.settings.width v = some t ∧ Yields (env.evaluate (.ofText t)) k o ∧
      (problemsOf o.events = [] ↔ (Hex.unsigned t).length ≤ env.settings.maxLength) ∧
      ((Hex.unsigned t).length ≤ env.settings.maxLength →
        env.settings.width.wrap? v = some o.value) := by
  obtain ⟨t, written, answers⟩ := answers_hex pos digit v
  obtain ⟨o, yields, problems, value⟩ := answers k
  refine ⟨t, o, written, yields, problems, ?_⟩
  intro short
  rw [Width.wrap?_eq_wrapped pos, value short]

/-- All nine bits are shown, in no more characters than the limit allows. -/
theorem evaluate_literal_ones :
    let s : Settings :=
      { Settings.default with width := .bits 9, maxLength := 4, maxLength_pos := by decide }
    let env : Env := ⟨s, fun _ => none, fun _ => 0⟩
    env.settings.width.Positive ∧ Numeral.isDecimalDigit env.settings.delimiter = false ∧
      Hex.literal? env.settings.width (-1) = some "1FFH".toList ∧
      ∃ o, Yields (env.evaluate (.ofText "1FFH".toList)) 0 o ∧ problemsOf o.events = [] ∧
        o.value = -1 := by
  intro s env
  have pos : env.settings.width.Positive := by decide
  have digit : Numeral.isDecimalDigit env.settings.delimiter = false := by decide
  have shown : Hex.literal? env.settings.width (-1) = some "1FFH".toList := by decide +kernel
  obtain ⟨t, o, written, yields, problems, value⟩ := evaluate_literal pos digit (-1) 0
  obtain rfl : t = "1FFH".toList := Option.some.inj (written.symm.trans shown)
  have held : env.settings.width.wrap? (-1) = some (-1) := by decide +kernel
  have short : (Hex.unsigned "1FFH".toList).length ≤ env.settings.maxLength := by decide
  exact ⟨pos, digit, shown, o, yields, problems.mpr short,
    Option.some.inj ((value short).symm.trans held)⟩

end Env

end AsmOperand
