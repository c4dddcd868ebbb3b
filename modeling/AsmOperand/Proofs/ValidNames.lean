import AsmOperand.Proofs.Definitions
import AsmOperand.Proofs.Diagnostics
import AsmOperand.Proofs.Relocation

/-!
# Names that an expression can refer to

Whether a name is valid is decided by its characters, without a scan. An expression that consists of
a valid name asks for it, and comes to whatever value it has. A scan of any other name finds only
shorter names in it, so that no value which is given to the name makes a difference. Names are taken
to have no blanks and no digit in front here, since a line that defines one ends it at a blank.
-/

namespace AsmOperand

namespace Scan

/-- Every name that the scan looks up has fewer than `n` characters. -/
def ShortNames (n : Nat) : Scan → Prop
  | .done => True
  | .unclosed _ => True
  | .group _ body rest => body.ShortNames n ∧ rest.ShortNames n
  | .quoted _ _ _ rest => rest.ShortNames n
  | .word _ token rest =>
    (Token.ofText token.text = .name → token.text ≠ Env.counterMark → token.text.length < n) ∧
      rest.ShortNames n

/-- There are no long names in a short text. -/
theorem shortNames_of_length (s : Settings) (e : Excerpt) (i : Nat) {t : Text} {n : Nat}
    (short : t.length < n) : (ofChars s e i t).ShortNames n := by
  fun_induction ofChars s e i t with
  | case1 e i => trivial
  | case2 e i c rest blank ih =>
    rw [List.length_cons] at short
    exact ih (by omega)
  | case3 e i rest lasts notBlank => trivial
  | case4 e i rest m closes body notBlank ihBody ihRest =>
    have inside := lt_length_of_groupLength? closes
    have kept := length_kept_le s.maxLength e (i + 1) (i + 1 + m)
    rw [List.length_cons] at short
    refine ⟨ihBody ?_, ihRest ?_⟩
    · show (clip s.maxLength (e.sub (i + 1) (i + 1 + m))).kept.text.length < n
      omega
    · rw [List.length_drop]
      omega
  | case5 e i rest m body closed notBlank notOpen ih =>
    rw [List.length_cons] at short
    apply ih
    rw [List.length_drop]
    omega
  | case6 e i rest m body lasts notBlank notOpen ih =>
    rw [List.length_cons] at short
    apply ih
    rw [List.length_drop]
    omega
  | case7 e i c rest notBlank notOpen notQuote m token ih =>
    have inside := wordLength_le c rest
    have kept := length_kept_le s.maxLength e i (i + 1 + m)
    rw [List.length_cons] at short
    refine ⟨fun _ _ => ?_, ih ?_⟩
    · show (clip s.maxLength (e.sub i (i + 1 + m))).kept.text.length < n
      omega
    · rw [List.length_drop]
      omega

/-- A word ends before a character that cannot stand in it. -/
theorem wordLength_lt {c d : Char} {rest : Text} (inside : d ∈ rest) (ends : isWordChar d = false) :
    wordLength c rest < rest.length := by
  by_contra whole
  have taken : rest.take (wordLength c rest) = rest := List.take_of_length_le (by omega)
  rw [isWordChar_of_mem_take (c := c) (by rwa [taken])] at ends
  cases ends

/-- The word at the start of a name that is not valid is shorter than the name, or it is the mark of
the location counter or an operator. -/
theorem short_word_of_invalid (s : Settings) {e : Excerpt} (wf : e.WellFormed) {c : Char}
    {rest : Text} (spelled : e.text = c :: rest) (undigited : Numeral.isDecimalDigit c = false)
    (notOpen : c ≠ '(') (notQuote : c ≠ s.delimiter)
    (invalid : isValidName (some s.delimiter) (c :: rest) = false) :
    let word := (clip s.maxLength (e.sub 0 (0 + 1 + wordLength c rest))).kept
    Token.ofText word.text = .name → word.text ≠ Env.counterMark →
      word.text.length < (c :: rest).length := by
  intro word kind mark
  obtain ⟨others, _, left, _, fewer⟩ := Env.kept_word ⟨s, fun _ => none, fun _ => 0⟩ wf
    (Excerpt.within_refl wf) (i := 0) spelled
  have kept : word.text.length ≤ 0 + 1 + wordLength c rest - 0 := length_kept_le s.maxLength e _ _
  by_cases marked : c :: rest = Env.counterMark
  · obtain ⟨rfl, rfl⟩ := List.cons.inj marked
    have alone : others = [] := List.eq_nil_iff_forall_not_mem.mpr fun d hd => by
      simpa using fewer d hd
    rw [alone] at left
    exact absurd left mark
  · have free : isOperator c = false := by
      rw [Bool.eq_false_iff]
      intro known
      obtain ⟨op, symbol⟩ := isOperator_iff.mp known
      rw [left, Token.ofText_cons_eq_operator_iff.mpr symbol] at kind
      cases kind
    have ends : ∃ d ∈ rest, isOperator d = true := by
      simpa [isValidName, marked, notOpen, notQuote, free, undigited] using invalid
    obtain ⟨d, inside, operator⟩ := ends
    have early := wordLength_lt (c := c) inside (by simp [isWordChar, operator])
    rw [List.length_cons]
    omega

/-- A scan of a name that is not valid looks up shorter names only. -/
theorem shortNames_of_invalid (s : Settings) {e : Excerpt} (wf : e.WellFormed)
    (plain : ∀ c ∈ e.text, Text.isBlank c = false)
    (undigited : ∀ c ∈ e.text.head?, Numeral.isDecimalDigit c = false)
    (invalid : isValidName (some s.delimiter) e.text = false) :
    (e.scan s).ShortNames e.text.length := by
  rw [Excerpt.scan]
  cases spelled : e.text with
  | nil =>
    rw [ofChars]
    trivial
  | cons c rest =>
    rw [spelled] at plain undigited invalid
    have notBlank : ¬Text.isBlank c = true := by
      simp [plain c List.mem_cons_self]
    have behind (i : Nat) (k : Nat) :
        (ofChars s e i (rest.drop k)).ShortNames (c :: rest).length := by
      apply shortNames_of_length
      rw [List.length_drop, List.length_cons]
      omega
    by_cases opens : c = '('
    · subst opens
      cases closes : groupLength? s.nested 0 rest with
      | none =>
        rw [ofChars_unclosed s e 0 closes]
        trivial
      | some n =>
        have inside := lt_length_of_groupLength? closes
        have kept := length_kept_le s.maxLength e (0 + 1) (0 + 1 + n)
        rw [ofChars_group s e 0 closes]
        refine ⟨shortNames_of_length s _ 0 ?_, behind _ _⟩
        rw [List.length_cons]
        omega
    by_cases quote : c = s.delimiter
    · by_cases closed : rest[(stringChars s.delimiter rest).length]? = some s.delimiter
      · rw [ofChars_closed s e 0 notBlank opens quote rfl closed]
        exact behind _ _
      · rw [ofChars_unended s e 0 notBlank opens quote rfl closed]
        exact behind _ _
    rw [ofChars_word s e 0 notBlank opens quote rfl]
    refine ⟨?_, behind _ _⟩
    exact short_word_of_invalid s wf spelled (undigited c rfl) opens quote invalid

end Scan

namespace Env

section Agree
variable (env : Env) {more : Text → Option Int} {n : Nat}
  (agree : ∀ t : Text, t.length < n → more t = env.symbols t)
include agree

theorem wordValue_agree {token : Excerpt}
    (short : Token.ofText token.text = .name → token.text ≠ counterMark → token.text.length < n)
    (value : Int) :
    { env with symbols := more }.wordValue token value = env.wordValue token value := by
  simp only [wordValue]
  cases kind : Token.ofText token.text with
  | operator op => rfl
  | numeral r => rfl
  | name =>
    by_cases mark : token.text = counterMark
    · rw [if_pos mark, if_pos mark]
      rfl
    have asked : (token.text.take env.settings.symbolSize).length < n := by
      have whole := short kind mark
      rw [List.length_take]
      omega
    simp only [if_neg mark, lookup, agree _ asked]
    rfl

/-- Only the names that are looked up matter. -/
theorem pass_agree {s : Scan} (short : s.ShortNames n) (value : Int) :
    { env with symbols := more }.pass s [] value = env.pass s [] value := by
  induction s generalizing value with
  | done => rfl
  | unclosed opened => rfl
  | group long body rest ihBody ihRest =>
    simp only [pass, ihBody short.1, ihRest short.2]
    rfl
  | quoted unended long chars rest ih =>
    simp only [pass_quoted, ih short]
    rfl
  | word long token rest ih =>
    simp only [pass_word_nil, wordValue_agree env agree short.1, ih short.2]
    rfl

end Agree

end Env

section Name
variable {s : Settings} {name : Text} (plain : ∀ c ∈ name, Text.isBlank c = false)
include plain

/-- A valid name comes to its value. -/
theorem evaluate_of_isValidName (pos : s.width.Positive) (whole : name.length ≤ s.symbolSize)
    (short : name.length ≤ s.maxLength) (valid : isValidName (some s.delimiter) name = true)
    {v : Int} (held : s.width.Holds v) (counter : Nat → Int) :
    Env.evaluate ⟨s, Bindings.find? [(name, v)], counter⟩ (.ofText name) = pure v := by
  let env : Env := ⟨s, Bindings.find? [(name, v)], counter⟩
  have spelled := Excerpt.text_ofText name
  have known : env.symbols ((Excerpt.ofText name).text.take env.settings.symbolSize) = some v := by
    rw [spelled, List.take_of_length_le whole]
    exact Bindings.find?_bind_self name v []
  apply Env.evaluate_name pos (Excerpt.wellFormed_ofText name) _ _ _ known held
  · rwa [spelled]
  · rwa [spelled]
  · rwa [spelled]

/-- Of a name that is not valid the value is not looked up. -/
theorem evaluate_of_invalid (undigited : ∀ c ∈ name.head?, Numeral.isDecimalDigit c = false)
    (invalid : isValidName (some s.delimiter) name = false) (v : Int) (counter : Nat → Int) :
    Env.evaluate ⟨s, Bindings.find? [(name, v)], counter⟩ (.ofText name) =
      Env.evaluate ⟨s, fun _ => none, counter⟩ (.ofText name) := by
  have wf := Excerpt.wellFormed_ofText name
  have others : ((Excerpt.ofText name).scan s).ShortNames name.length := by
    have names := Scan.shortNames_of_invalid s wf
    rw [Excerpt.text_ofText] at names
    exact names plain undigited invalid
  have agree (t : Text) (shorter : t.length < name.length) :
      Bindings.find? [(name, v)] t = none := by
    have differs : name ≠ t := by
      rintro rfl
      omega
    simp [Bindings.find?, differs]
  rw [Env.evaluate_eq_pass _ wf, Env.evaluate_eq_pass _ wf]
  exact Env.pass_agree ⟨s, fun _ => none, counter⟩ agree others 0

/-- The names that an expression can refer to are exactly the valid ones. A valid name comes to the
value it is given, without a problem; what any other name comes to does not depend on the value. -/
theorem isValidName_iff_referable (unlimited : s.width = .unlimited)
    (undigited : ∀ c ∈ name.head?, Numeral.isDecimalDigit c = false)
    (whole : name.length ≤ s.symbolSize) (short : name.length ≤ s.maxLength) :
    (isValidName (some s.delimiter) name = true ↔ ∀ (v : Int) (counter : Nat → Int) (k : Nat),
      ∃ o, Yields (Env.evaluate ⟨s, Bindings.find? [(name, v)], counter⟩ (.ofText name)) k o ∧
        o.value = v ∧ problemsOf o.events = []) ∧
    (isValidName (some s.delimiter) name = false → ∀ (v : Int) (counter : Nat → Int),
      Env.evaluate ⟨s, Bindings.find? [(name, v)], counter⟩ (.ofText name) =
        Env.evaluate ⟨s, fun _ => none, counter⟩ (.ofText name)) := by
  refine ⟨?_, evaluate_of_invalid plain undigited⟩
  constructor
  · intro valid v counter k
    have pos : s.width.Positive := by
      rw [unlimited]
      trivial
    have held : s.width.Holds v := by
      rw [unlimited]
      trivial
    rw [evaluate_of_isValidName plain pos whole short valid held counter]
    exact ⟨_, Yields.pure v k, rfl, rfl⟩
  · intro refers
    by_contra bad
    have invalid : isValidName (some s.delimiter) name = false := by simpa using bad
    -- Given zero and given one, the name would have to come to both.
    obtain ⟨o, zero, isZero, _⟩ := refers 0 (fun _ => 0) 0
    obtain ⟨o', one, isOne, _⟩ := refers 1 (fun _ => 0) 0
    rw [evaluate_of_invalid plain undigited invalid] at zero one
    rw [zero.unique one, isOne] at isZero
    cases isZero

end Name

/-- Parentheses, delimiters and marks may stand inside a name. Of `A-B` only the two parts are
looked up. -/
theorem isValidName_iff_referable_pair :
    let s : Settings := { Settings.default with width := .unlimited }
    let Fits (name : Text) : Prop := (∀ c ∈ name, Text.isBlank c = false) ∧
      (∀ c ∈ name.head?, Numeral.isDecimalDigit c = false) ∧
      name.length ≤ s.symbolSize ∧ name.length ≤ s.maxLength
    let good := "É)('$".toList
    let bad := "A-B".toList
    s.width = .unlimited ∧ Fits good ∧ Fits bad ∧
      (∀ (v : Int) (counter : Nat → Int) (k : Nat),
        ∃ o, Yields (Env.evaluate ⟨s, Bindings.find? [(good, v)], counter⟩ (.ofText good)) k o ∧
          o.value = v ∧ problemsOf o.events = []) ∧
      ∀ (v : Int) (counter : Nat → Int),
        Env.evaluate ⟨s, Bindings.find? [(bad, v)], counter⟩ (.ofText bad) =
          Env.evaluate ⟨s, fun _ => none, counter⟩ (.ofText bad) := by
  intro s Fits good bad
  have unblank {name : Text} (none : name.any Text.isBlank = false) (c : Char) (hc : c ∈ name) :
      Text.isBlank c = false :=
    (Bool.not_eq_true _).mp (List.any_eq_false.mp none c hc)
  have fitsGood : Fits good := by
    refine ⟨unblank (by decide), ?_, by decide, by decide⟩
    rintro c ⟨⟩
    decide
  have fitsBad : Fits bad := by
    refine ⟨unblank (by decide), ?_, by decide, by decide⟩
    rintro c ⟨⟩
    decide
  refine ⟨rfl, fitsGood, fitsBad, ?_, ?_⟩
  · obtain ⟨plain, undigited, whole, short⟩ := fitsGood
    exact (isValidName_iff_referable plain rfl undigited whole short).1.mp (by decide)
  · obtain ⟨plain, undigited, whole, short⟩ := fitsBad
    exact (isValidName_iff_referable plain rfl undigited whole short).2 (by decide)

end AsmOperand
