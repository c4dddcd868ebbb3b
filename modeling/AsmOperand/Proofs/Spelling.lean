import AsmOperand.Proofs.Expression

/-!
# How words are taken

The numbers, names and marks of an expression are words: nothing in them ends a word or opens
something else, and the first and the last character tell which kind they are. A number's digits
are read back, up to the letter that marks its radix. Parentheses occur in matching pairs only.
-/

namespace AsmOperand

/-- A text that is taken as one word, wherever it stands. -/
structure Word (s : Settings) (w : Text) : Prop where
  plain : ∀ c ∈ w, Scan.isWordChar c = true ∧ c ≠ '(' ∧ c ≠ ')'
  starts : ∃ c rest, w = c :: rest ∧ c ≠ s.delimiter

/-- A text that is taken as one word where no group has been opened. -/
structure OpenWord (s : Settings) (w : Text) : Prop where
  plain : ∀ c ∈ w, Scan.isWordChar c = true
  starts : ∃ c rest, w = c :: rest ∧ c ≠ '(' ∧ c ≠ s.delimiter

theorem Word.openWord {s : Settings} {w : Text} (word : Word s w) : OpenWord s w := by
  obtain ⟨c, rest, rfl, notQuote⟩ := word.starts
  exact ⟨fun d hd => (word.plain d hd).1,
    ⟨c, rest, rfl, (word.plain c List.mem_cons_self).2.1, notQuote⟩⟩

namespace Hex

theorem digit?_digit : ∀ d < 16, Numeral.digit? (digit d) = some d := by decide

theorem isDecimalDigit_digit : ∀ d < 10, Numeral.isDecimalDigit (digit d) = true := by decide

theorem isWordChar_digit :
    ∀ d < 16, Scan.isWordChar (digit d) = true ∧ digit d ≠ '(' ∧ digit d ≠ ')' := by decide

end Hex

namespace Radix

theorem base_le (r : Radix) : r.base ≤ 16 := by
  cases r <;> decide

/-- The letter that marks a radix belongs to the word, but is no digit of the radix. -/
theorem of_mem_suffix (r : Radix) {c : Char} (h : c ∈ r.suffix) :
    (Scan.isWordChar c = true ∧ c ≠ '(' ∧ c ≠ ')') ∧ Numeral.isDigitOf r.base c = false := by
  cases r with
  | decimal => cases h
  | hexadecimal =>
    rw [List.mem_singleton.mp h]
    decide
  | octal =>
    rw [List.mem_singleton.mp h]
    decide
  | binary =>
    rw [List.mem_singleton.mp h]
    decide

end Radix

namespace Numeral

theorem isDigitOf_digit {base d : Nat} (small : base ≤ 16) (h : d < base) :
    isDigitOf base (Hex.digit d) = true := by
  simp only [isDigitOf, Hex.digit?_digit d (by omega), decide_eq_true h]

/-- Reading from the left puts the first of some digits in the highest place. -/
theorem foldl_eq_ofDigits {α : Type} (base : Nat) (f : α → Nat) (xs : List α) :
    xs.foldl (fun n x => n * base + f x) 0 = Nat.ofDigits base (xs.map f).reverse := by
  have swap : (fun n x => n * base + f x) = fun n x => ((f x : Nat) + base * n : Nat) := by
    funext n x
    rw [Nat.mul_comm, Nat.add_comm]
  rw [Nat.ofDigits_eq_foldr, List.foldr_reverse, List.foldl_map, swap]
  rfl

/-- The digits of a number, the highest one first, behind some zeros. -/
def padded (base zeros n : Nat) : List Nat :=
  List.replicate zeros 0 ++ (Nat.digits base n).reverse

theorem padded_lt {base : Nat} (large : 1 < base) (zeros n : Nat) :
    ∀ d ∈ padded base zeros n, d < base := by
  intro d hd
  rcases List.mem_append.mp hd with hd | hd
  · rw [(List.mem_replicate.mp hd).2]
    omega
  · exact Nat.digits_lt_base large (List.mem_reverse.mp hd)

theorem ofDigits_padded (base zeros n : Nat) :
    Nat.ofDigits base (padded base zeros n).reverse = n := by
  rw [padded, List.reverse_append, List.reverse_reverse, List.reverse_replicate,
    Nat.ofDigits_append_replicate_zero, Nat.ofDigits_digits]

theorem positional_map_digit {base : Nat} (small : base ≤ 16) {ds : List Nat}
    (h : ∀ d ∈ ds, d < base) : positional base (ds.map Hex.digit) = Nat.ofDigits base ds.reverse := by
  have read : (ds.map Hex.digit).map (fun c => (digit? c).getD 0) = ds := by
    rw [List.map_map]
    refine (List.map_congr_left ?_).trans (List.map_id ds)
    intro d hd
    have known := Hex.digit?_digit d (Nat.lt_of_lt_of_le (h d hd) small)
    simp only [Function.comp_apply, known, Option.getD_some, id_eq]
  rw [positional, foldl_eq_ofDigits, read]

theorem leading_append {base : Nat} (small : base ≤ 16) {ds : List Nat} {t : Text}
    (h : ∀ d ∈ ds, d < base) (stop : ∀ c ∈ t, isDigitOf base c = false) :
    leading base (ds.map Hex.digit ++ t) = Nat.ofDigits base ds.reverse := by
  have digits : ∀ c ∈ ds.map Hex.digit, isDigitOf base c = true := by
    intro c hc
    obtain ⟨d, hd, rfl⟩ := List.mem_map.mp hc
    exact isDigitOf_digit small (h d hd)
  have ends : t.takeWhile (isDigitOf base) = [] := by
    cases t with
    | nil => rfl
    | cons c t => rw [List.takeWhile_cons, stop c (by simp)]; rfl
  rw [leading, List.takeWhile_append_of_pos digits, ends, List.append_nil,
    positional_map_digit small h]

/-- A number that starts with a digit has neither blanks nor a sign before it. -/
theorem signedDecimal_of_digit {c : Char} {rest : Text} (h : isDecimalDigit c = true) :
    signedDecimal (c :: rest) = leading 10 (c :: rest) := by
  have notBlank : Text.isBlank c = false := by
    simp only [isDecimalDigit, Bool.and_eq_true, decide_eq_true_eq, Char.le_def,
      UInt32.le_iff_toNat_le] at h
    have low : 48 ≤ c.toNat := h.1
    have high : c.toNat ≤ 57 := h.2
    simp only [Text.isBlank, Bool.or_eq_false_iff, Bool.and_eq_false_iff, decide_eq_false_iff_not,
      beq_eq_false_iff_ne]
    omega
  have trimmed : Text.trimStart (c :: rest) = c :: rest := by
    rw [Text.trimStart, List.dropWhile_cons, notBlank]
    rfl
  rw [signedDecimal, trimmed]
  split
  · rename_i same
    obtain ⟨rfl, _⟩ := List.cons.inj same
    cases h
  · rename_i same
    obtain ⟨rfl, _⟩ := List.cons.inj same
    cases h
  · rfl

theorem packed_eq (chars : Text) :
    packed chars = Nat.ofDigits 256 (chars.map Char.toNat).reverse :=
  foldl_eq_ofDigits 256 Char.toNat chars

end Numeral

namespace Literal

theorem digits_small (l : Literal) : ∀ d ∈ l.digits, d < 16 := by
  intro d hd
  exact Nat.lt_of_lt_of_le (l.digits_lt d hd) l.radix.base_le

theorem word {s : Settings} (apart : Numeral.isDecimalDigit s.delimiter = false) (l : Literal) :
    Word s l.text := by
  constructor
  · intro c hc
    rcases List.mem_append.mp hc with hc | hc
    · obtain ⟨d, hd, rfl⟩ := List.mem_map.mp hc
      exact Hex.isWordChar_digit d (l.digits_small d hd)
    · exact (l.radix.of_mem_suffix hc).1
  · refine ⟨Hex.digit l.first, _, rfl, ?_⟩
    intro same
    have digit := Hex.isDecimalDigit_digit l.first l.first_lt
    rw [same, apart] at digit
    cases digit

/-- The last character tells the radix. -/
theorem ofText_text (l : Literal) : Token.ofText l.text = .numeral l.radix := by
  obtain ⟨radix, first, others, first_lt, digits_lt⟩ := l
  have lead := Hex.isDecimalDigit_digit first first_lt
  have last : Radix.ofLast? ((others.map Hex.digit ++ radix.suffix).getLastD (Hex.digit first)) =
      some radix := by
    cases radix with
    | hexadecimal => rw [Radix.suffix, List.getLastD_concat]; rfl
    | octal => rw [Radix.suffix, List.getLastD_concat]; rfl
    | binary => rw [Radix.suffix, List.getLastD_concat]; rfl
    | decimal =>
      have low : others.getLastD first < 10 := digits_lt _ List.getLastD_mem_cons
      have digit := Hex.isDecimalDigit_digit _ low
      rw [Radix.suffix, List.append_nil, List.getLastD_map, Radix.ofLast?, digit, if_pos rfl]
  simp only [text, digits, List.map_cons, List.cons_append, Token.ofText, lead, if_true, last]

theorem leading_text (l : Literal) : Numeral.leading l.radix.base l.text = l.value :=
  Numeral.leading_append l.radix.base_le l.digits_lt fun _ hc => (l.radix.of_mem_suffix hc).2

theorem value_text (l : Literal) : l.radix.value l.text = l.value := by
  have read := leading_text l
  obtain ⟨radix, first, others, first_lt, digits_lt⟩ := l
  cases radix with
  | hexadecimal => exact congrArg Nat.cast read
  | octal => exact congrArg Nat.cast read
  | binary => exact congrArg Nat.cast read
  | decimal =>
    have digit := Hex.isDecimalDigit_digit first first_lt
    exact (Numeral.signedDecimal_of_digit digit).trans (congrArg Nat.cast read)

end Literal

/-- A name that can be defined is a word, and no number, operator or mark. It may have parentheses
behind its first character. -/
theorem openWord_of_isValidName {s : Settings} {name : Text}
    (valid : isValidName (some s.delimiter) name = true)
    (plain : ∀ c ∈ name, Text.isBlank c = false) :
    OpenWord s name ∧ Token.ofText name = .name ∧ name ≠ Env.counterMark := by
  cases name with
  | nil => cases valid
  | cons c rest =>
    simp only [isValidName, Bool.and_eq_true, decide_eq_true_eq, Bool.not_eq_true', ne_eq,
      Option.some.injEq] at valid
    obtain ⟨⟨⟨⟨mark, digit⟩, notOpen⟩, delimiter⟩, operators⟩ := valid
    have free : ∀ d ∈ c :: rest, isOperator d = false := by
      simpa only [List.any_eq_false, Bool.not_eq_true] using operators
    refine ⟨⟨?_, c, rest, rfl, notOpen, delimiter⟩, ?_, mark⟩
    · intro d hd
      rw [Scan.isWordChar, plain d hd, free d hd]
      rfl
    · have none : Operator.ofChar? c = none := by
        simpa only [isOperator, Option.isSome_eq_false_iff, Option.isNone_iff_eq_none] using
          free c List.mem_cons_self
      simp only [Token.ofText, digit, none, Bool.false_eq_true, if_false]

theorem word_of_isValidName {s : Settings} {name : Text}
    (valid : isValidName (some s.delimiter) name = true)
    (plain : ∀ c ∈ name, Text.isBlank c = false ∧ c ≠ '(' ∧ c ≠ ')') :
    Word s name ∧ Token.ofText name = .name ∧ name ≠ Env.counterMark := by
  obtain ⟨word, kind, mark⟩ := openWord_of_isValidName valid fun c hc => (plain c hc).1
  obtain ⟨c, rest, starts, _, notQuote⟩ := word.starts
  exact ⟨⟨fun d hd => ⟨word.plain d hd, (plain d hd).2⟩, c, rest, starts, notQuote⟩, kind, mark⟩

theorem word_counterMark {s : Settings} (apart : s.Apart) : Word s Env.counterMark := by
  constructor
  · intro c hc
    rw [List.mem_singleton.mp hc]
    decide
  · refine ⟨'$', [], rfl, ?_⟩
    intro same
    exact apart.counter (same ▸ List.mem_singleton_self '$')

theorem groupLength?_plain {nested : Bool} {c : Char} (notOpen : c ≠ '(') (notClose : c ≠ ')')
    (depth : Nat) (rest : Text) : Scan.groupLength? nested depth (c :: rest) =
      (Scan.groupLength? nested depth rest).map (· + 1) := by
  rw [Scan.groupLength?.eq_def]
  simp only [if_neg notClose, if_neg (fun h : _ ∧ _ => notOpen h.1)]

theorem groupLength?_open (depth : Nat) (rest : Text) : Scan.groupLength? true depth ('(' :: rest) =
    (Scan.groupLength? true (depth + 1) rest).map (· + 1) := by
  rw [Scan.groupLength?.eq_def]
  simp

theorem groupLength?_close (depth : Nat) (rest : Text) :
    Scan.groupLength? true (depth + 1) (')' :: rest) =
      (Scan.groupLength? true depth rest).map (· + 1) := by
  rw [Scan.groupLength?.eq_def]
  simp

/-- Every parenthesis in the text has its partner there, in the right order. -/
def Balanced (t : Text) : Prop :=
  ∀ depth rest, Scan.groupLength? true depth (t ++ rest) =
    (Scan.groupLength? true depth rest).map (· + t.length)

namespace Balanced

theorem of_plain {t : Text} (plain : ∀ c ∈ t, c ≠ '(' ∧ c ≠ ')') : Balanced t := by
  intro depth rest
  induction t with
  | nil => simp
  | cons c t ih =>
    obtain ⟨⟨notOpen, notClose⟩, others⟩ := List.forall_mem_cons.mp plain
    rw [List.cons_append, groupLength?_plain notOpen notClose, ih others, Option.map_map]
    rfl

theorem append {t u : Text} (ht : Balanced t) (hu : Balanced u) : Balanced (t ++ u) := by
  intro depth rest
  rw [List.append_assoc, ht, hu, Option.map_map]
  congr 1
  funext n
  simp only [Function.comp_apply, List.length_append]
  omega

theorem group {t : Text} (ht : Balanced t) : Balanced ('(' :: t ++ [')']) := by
  intro depth rest
  rw [List.cons_append, List.cons_append, List.append_assoc, List.singleton_append,
    groupLength?_open, ht, groupLength?_close, Option.map_map, Option.map_map]
  congr 1
  funext n
  simp only [Function.comp_apply, List.length_cons, List.length_append, List.length_nil]
  omega

/-- The parenthesis behind a balanced text is the one that closes its group. -/
theorem groupLength?_eq {t : Text} (ht : Balanced t) (rest : Text) :
    Scan.groupLength? true 0 (t ++ ')' :: rest) = some t.length := by
  have here : Scan.groupLength? true 0 (')' :: rest) = some 0 := by
    rw [Scan.groupLength?.eq_def]
    simp
  rw [ht, here, Option.map_some, Nat.zero_add]

end Balanced

theorem isBlank_ne_parenthesis {c : Char} (h : Text.isBlank c = true) : c ≠ '(' ∧ c ≠ ')' := by
  constructor
  · rintro rfl
    cases h
  · rintro rfl
    cases h

theorem Operator.symbol_ne_parenthesis (op : Operator) : op.symbol ≠ '(' ∧ op.symbol ≠ ')' := by
  cases op <;> decide

theorem Balanced.of_blanks {t : Text} (blanks : t.isAllBlank = true) : Balanced t := by
  apply of_plain
  intro c hc
  exact isBlank_ne_parenthesis (List.all_eq_true.mp blanks c hc)

theorem Balanced.operator (op : Operator) {t : Text} (ht : Balanced t) :
    Balanced (op.symbol :: t) := by
  have mark : Balanced [op.symbol] := by
    apply of_plain
    intro c hc
    rw [List.mem_singleton.mp hc]
    exact op.symbol_ne_parenthesis
  exact mark.append ht

theorem Written.balanced {s : Settings} (apart : s.Apart) {form : Form} {x : Expr} {t : Text}
    (h : Written s form x t) : Balanced t := by
  induction h with
  | number l short =>
    exact Balanced.of_plain fun c hc => ((l.word apart.digit).plain c hc).2
  | string plain short =>
    apply Balanced.of_plain
    intro c hc
    rcases List.mem_append.mp hc with hc | hc
    · rcases List.mem_cons.mp hc with rfl | hc
      · exact ⟨s.delimiter_ne, apart.closing⟩
      · exact (plain c hc).2.2
    · rw [List.mem_singleton.mp hc]
      exact ⟨s.delimiter_ne, apart.closing⟩
  | symbol valid plain short =>
    exact Balanced.of_plain fun c hc => (plain c hc).2
  | counter => exact Balanced.of_plain fun c hc => ((word_counterMark apart).plain c hc).2
  | group inner short ih => exact ih.group
  | alone operand blanks blanks' ih =>
    exact ((Balanced.of_blanks blanks).append ih).append (Balanced.of_blanks blanks')
  | complement rhs blanks ih => exact (Balanced.of_blanks blanks).append (ih.operator _)
  | negative rhs blanks ih => exact (Balanced.of_blanks blanks).append (ih.operator _)
  | binary lhs rhs blanks blanks' ihLeft ihRight =>
    exact (((Balanced.of_blanks blanks).append ihLeft).append (Balanced.of_blanks blanks')).append
      (ihRight.operator _)

end AsmOperand
