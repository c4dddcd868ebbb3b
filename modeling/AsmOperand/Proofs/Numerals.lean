import AsmOperand.Proofs.Definitions

/-!
# What words that start with a digit mean

The last character of such a word tells its radix, if it tells any, and the digits of this radix
that the word starts with are all that counts: as many as there are, in the places that they stand
in. What comes behind them is passed over, be it the mark of the radix or anything else. A word
whose last character tells no radix is a name. It may have a value, although nothing defines it.

So numbers are read as they are written, with any number of zeros before them. A number that would
start with a letter needs one.
-/

namespace AsmOperand

namespace Radix

/-- The digits of a radix, in the order of their values. -/
def digits (r : Radix) : Text :=
  ['0', '1', '2', '3', '4', '5', '6', '7', '8', '9', 'A', 'B', 'C', 'D', 'E', 'F'].take r.base

/-- Does this character, at the end of a word, tell the radix? -/
def IsMarkedBy (r : Radix) (c : Char) : Prop :=
  match r with
  | .decimal => c ∈ digits .decimal
  | r => r.suffix = [c]

theorem digits_eq (r : Radix) : r.digits = (List.range r.base).map Hex.digit := by
  cases r <;> decide

theorem idxOf_digits (r : Radix) : ∀ d < r.base, r.digits.idxOf (Hex.digit d) = d := by
  cases r <;> decide

end Radix

namespace Numeral

theorem eq_digit_of_digit? {c : Char} {d : Nat} (h : digit? c = some d) : c = Hex.digit d := by
  simp only [digit?, Char.le_def, UInt32.le_iff_toNat_le] at h
  split at h
  · rename_i inside
    have low : 48 ≤ c.toNat := inside.1
    have high : c.toNat ≤ 57 := inside.2
    have value : d = c.toNat - 48 := (Option.some.inj h).symm
    have code : '0'.toNat + d = c.toNat := by
      show 48 + d = c.toNat
      omega
    rw [Hex.digit, if_pos (by omega), code, Char.ofNat_toNat]
  · split at h
    · rename_i inside
      have low : 65 ≤ c.toNat := inside.1
      have high : c.toNat ≤ 70 := inside.2
      have value : d = c.toNat - 65 + 10 := (Option.some.inj h).symm
      have code : 'A'.toNat + (d - 10) = c.toNat := by
        show 65 + (d - 10) = c.toNat
        omega
      rw [Hex.digit, if_neg (by omega), code, Char.ofNat_toNat]
    · cases h

theorem isDigitOf_iff (r : Radix) {c : Char} : isDigitOf r.base c = true ↔ c ∈ r.digits := by
  rw [r.digits_eq, List.mem_map]
  constructor
  · intro digit
    rw [isDigitOf] at digit
    cases known : digit? c with
    | none =>
      rw [known] at digit
      cases digit
    | some d =>
      rw [known] at digit
      exact ⟨d, List.mem_range.mpr (of_decide_eq_true digit), (eq_digit_of_digit? known).symm⟩
  · rintro ⟨d, small, rfl⟩
    exact isDigitOf_digit r.base_le (List.mem_range.mp small)

theorem isDecimalDigit_iff {c : Char} : isDecimalDigit c = true ↔ c ∈ Radix.digits .decimal := by
  constructor
  · intro digit
    have inside : '0' ≤ c ∧ c ≤ '9' := by simpa [isDecimalDigit] using digit
    have high : c.toNat ≤ 57 := UInt32.le_iff_toNat_le.mp (Char.le_def.mp inside.2)
    have small : c.toNat - 48 < 10 := by omega
    rw [← isDigitOf_iff, isDigitOf, digit?, if_pos inside]
    exact decide_eq_true small
  · intro known
    rw [Radix.digits_eq, List.mem_map] at known
    obtain ⟨d, small, rfl⟩ := known
    exact Hex.isDecimalDigit_digit d (List.mem_range.mp small)

end Numeral

namespace Radix

theorem one_lt_base (r : Radix) : 1 < r.base := by
  cases r <;> decide

theorem ofLast?_eq_some_iff {r : Radix} {c : Char} : ofLast? c = some r ↔ r.IsMarkedBy c := by
  constructor
  · intro known
    have letter {d : Char} (same : c = d) : [d] = [c] := by rw [same]
    rw [ofLast?] at known
    split at known
    · cases known
      exact Numeral.isDecimalDigit_iff.mp ‹_›
    split at known
    · cases known
      exact letter ‹_›
    split at known
    · cases known
      exact letter ‹_›
    split at known
    · cases known
      exact letter ‹_›
    · cases known
  · intro mark
    cases r with
    | decimal => rw [ofLast?, if_pos (Numeral.isDecimalDigit_iff.mpr mark)]
    | hexadecimal =>
      obtain rfl := List.singleton_inj.mp mark
      rfl
    | octal =>
      obtain rfl := List.singleton_inj.mp mark
      rfl
    | binary =>
      obtain rfl := List.singleton_inj.mp mark
      rfl

instance (r : Radix) (c : Char) : Decidable (r.IsMarkedBy c) :=
  decidable_of_iff (ofLast? c = some r) ofLast?_eq_some_iff

/-- `p` is the longest text of digits that `t` starts with. -/
structure LongestDigits (r : Radix) (t p : Text) : Prop where
  starts : p <+: t
  digits : ∀ c ∈ p, c ∈ r.digits
  longest : ∀ u : Text, u <+: t → (∀ c ∈ u, c ∈ r.digits) → u <+: p

/-- The number that some digits stand for. -/
def number (r : Radix) (p : Text) : Nat := Nat.ofDigits r.base (p.map r.digits.idxOf).reverse

theorem LongestDigits.unique {r : Radix} {t p q : Text} (hp : r.LongestDigits t p)
    (hq : r.LongestDigits t q) : p = q :=
  (hq.longest p hp.starts hp.digits).eq_of_length_le
    (hp.longest q hq.starts hq.digits).length_le

theorem longestDigits_takeWhile (r : Radix) (t : Text) :
    r.LongestDigits t (t.takeWhile (Numeral.isDigitOf r.base)) := by
  refine ⟨List.takeWhile_prefix _, ?_, ?_⟩
  · intro c hc
    exact (Numeral.isDigitOf_iff r).mp (List.mem_takeWhile_imp hc)
  · intro u starts digits
    obtain ⟨rest, rfl⟩ := starts
    rw [List.takeWhile_append_of_pos fun c hc => (Numeral.isDigitOf_iff r).mpr (digits c hc)]
    exact List.prefix_append _ _

theorem leading_eq_number (r : Radix) (t : Text) :
    Numeral.leading r.base t = r.number (t.takeWhile (Numeral.isDigitOf r.base)) := by
  rw [Numeral.leading, Numeral.positional, Numeral.foldl_eq_ofDigits, number]
  congr 2
  apply List.map_congr_left
  intro c hc
  have digit := (Numeral.isDigitOf_iff r).mp (List.mem_takeWhile_imp hc)
  rw [r.digits_eq, List.mem_map] at digit
  obtain ⟨d, small, rfl⟩ := digit
  rw [r.idxOf_digits d (List.mem_range.mp small),
    Hex.digit?_digit d (Nat.lt_of_lt_of_le (List.mem_range.mp small) r.base_le), Option.getD_some]

theorem lt_ten_of_mem_digits : ∀ d < 16, Hex.digit d ∈ digits .decimal → d < 10 := by decide

/-- A number as it is written with some zeros before it. Zero has a digit too. -/
def written (r : Radix) (zeros n : Nat) : Text :=
  (Numeral.padded r.base (if n = 0 then zeros + 1 else zeros) n).map Hex.digit ++ r.suffix

/-- Unless it starts with a letter, what is written is a number that the grammar knows. -/
theorem exists_literal (r : Radix) {zeros n : Nat}
    (guarded : zeros = 0 → ∀ c ∈ (r.written 0 n).head?, c ∈ digits .decimal) :
    ∃ l : Literal, l.radix = r ∧ l.value = n ∧ l.text = r.written zeros n := by
  let places := if n = 0 then zeros + 1 else zeros
  have small := Numeral.padded_lt r.one_lt_base places n
  have value := Numeral.ofDigits_padded r.base places n
  have some : Numeral.padded r.base places n ≠ [] := by
    intro none
    obtain ⟨noZeros, noDigits⟩ := List.append_eq_nil_iff.mp none
    have zero : n = 0 := Nat.digits_eq_nil_iff_eq_zero.mp (List.reverse_eq_nil_iff.mp noDigits)
    simp [places, zero] at noZeros
  obtain ⟨first, others, split⟩ := List.exists_cons_of_ne_nil some
  rw [split] at small value
  have low : first < 10 := by
    cases zeros with
    | zero =>
      have head : Hex.digit first ∈ (r.written 0 n).head? := by
        show _ ∈ ((Numeral.padded r.base places n).map Hex.digit ++ r.suffix).head?
        rw [split]
        exact Option.mem_some_self _
      have bound : first < 16 := Nat.lt_of_lt_of_le (small first List.mem_cons_self) r.base_le
      exact lt_ten_of_mem_digits first bound (guarded rfl _ head)
    | succ zeros =>
      obtain ⟨more, positive⟩ : ∃ more, places = more + 1 := by
        by_cases zero : n = 0
        · exact ⟨zeros + 1, if_pos zero⟩
        · exact ⟨zeros, if_neg zero⟩
      rw [positive, Numeral.padded, List.replicate_succ, List.cons_append] at split
      rw [← (List.cons.inj split).1]
      decide
  refine ⟨⟨r, first, others, low, small⟩, rfl, value, ?_⟩
  show (first :: others).map Hex.digit ++ r.suffix = _
  rw [← split]
  rfl

end Radix

/-- A word that starts with a digit, whatever comes behind. -/
structure DigitWord (t : Text) : Prop where
  starts : ∃ c ∈ t.head?, c ∈ Radix.digits .decimal
  plain : ∀ c ∈ t, Text.isBlank c = false ∧ isOperator c = false

instance (t : Text) : Decidable (DigitWord t) :=
  decidable_of_iff (t.head?.any (fun c => c ∈ Radix.digits .decimal) = true ∧
      t.all (fun c => !Text.isBlank c && !isOperator c) = true) <| by
    simp only [Option.any_eq_true, decide_eq_true_eq, List.all_eq_true, Bool.and_eq_true,
      Bool.not_eq_true']
    exact ⟨fun ⟨starts, plain⟩ => ⟨starts, plain⟩, fun word => ⟨word.starts, word.plain⟩⟩

namespace DigitWord

variable {t : Text} (word : DigitWord t)
include word

theorem openWord {s : Settings} (apart : s.delimiter ∉ Radix.digits .decimal) : OpenWord s t := by
  obtain ⟨c, first, digit⟩ := word.starts
  obtain ⟨rest, rfl⟩ := List.head?_eq_some_iff.mp first
  refine ⟨?_, c, rest, rfl, ?_, ?_⟩
  · intro d hd
    obtain ⟨notBlank, notOperator⟩ := word.plain d hd
    rw [Scan.isWordChar, notBlank, notOperator]
    rfl
  · rintro rfl
    revert digit
    decide
  · rintro rfl
    exact apart digit

/-- The last character decides what kind of word it is. -/
theorem exists_last : ∃ last ∈ t.getLast?, Token.ofText t =
    match Radix.ofLast? last with
    | some r => .numeral r
    | none => .name := by
  obtain ⟨c, first, digit⟩ := word.starts
  obtain ⟨rest, rfl⟩ := List.head?_eq_some_iff.mp first
  have last : (c :: rest).getLast? = some (rest.getLastD c) := by
    rw [List.getLast?_cons, List.getLastD_eq_getLast?]
  exact ⟨_, last, if_pos (Numeral.isDecimalDigit_iff.mpr digit)⟩

theorem value_eq (r : Radix) : r.value t = Numeral.leading r.base t := by
  obtain ⟨c, first, digit⟩ := word.starts
  obtain ⟨rest, rfl⟩ := List.head?_eq_some_iff.mp first
  cases r with
  | decimal => exact Numeral.signedDecimal_of_digit (Numeral.isDecimalDigit_iff.mpr digit)
  | hexadecimal => rfl
  | octal => rfl
  | binary => rfl

end DigitWord

namespace Env

open Evaluation

variable {env : Env} (pos : env.settings.width.Positive)
  (apart : env.settings.delimiter ∉ Radix.digits .decimal)
include pos apart

section Word
variable {e : Excerpt} (wf : e.WellFormed) (short : e.text.length ≤ env.settings.maxLength)
include wf short

section DigitWord
variable (word : DigitWord e.text)
include word

theorem evaluate_marked {r : Radix} (kind : Token.ofText e.text = .numeral r) :
    ∃ p v, r.LongestDigits e.text p ∧ env.settings.width.wrap? (r.number p) = some v ∧
      env.evaluate e = pure v := by
  have open' := word.openWord apart
  obtain ⟨token, spelled, step⟩ := evaluate_word wf open' short (by simp [kind])
  refine ⟨_, _, r.longestDigits_takeWhile e.text, Width.wrap?_eq_wrapped pos _, ?_⟩
  rw [step]
  simp only [wordValue, spelled, kind, word.value_eq, r.leading_eq_number, wrap_eq pos]

omit pos in
theorem evaluate_unmarked (kind : Token.ofText e.text = .name) :
    ∃ token : Excerpt, token.text = e.text ∧ env.evaluate e = env.lookup token 0 := by
  have open' := word.openWord apart
  obtain ⟨token, spelled, step⟩ := evaluate_word wf open' short (by simp [kind])
  have notMark : e.text ≠ counterMark := by
    intro mark
    obtain ⟨c, first, digit⟩ := word.starts
    rw [mark] at first
    obtain rfl := Option.some.inj first
    revert digit
    decide
  refine ⟨token, spelled, ?_⟩
  rw [step]
  simp only [wordValue, spelled, kind, if_neg notMark]

end DigitWord

theorem evaluate_number (l : Literal) (spells : e.text = l.text) :
    ∃ v, env.settings.width.wrap? l.value = some v ∧ env.evaluate e = pure v := by
  have digit : Numeral.isDecimalDigit env.settings.delimiter = false := by
    rw [Bool.eq_false_iff]
    exact fun known => apart (Numeral.isDecimalDigit_iff.mp known)
  have word : OpenWord env.settings e.text := by
    rw [spells]
    exact (l.word digit).openWord
  have kind : Token.ofText e.text = .numeral l.radix := by rw [spells, l.ofText_text]
  obtain ⟨token, spelled, step⟩ := evaluate_word wf word short (by simp [kind])
  refine ⟨_, Width.wrap?_eq_wrapped pos _, ?_⟩
  rw [step]
  simp only [wordValue, spelled, spells, l.ofText_text, l.value_text, wrap_eq pos]

end Word

/-- If the last character of a word that starts with a digit tells a radix, the word comes to the
number that its longest part in front stands for, of digits of this radix. Otherwise it is looked
up. Numbers come to themselves, however many zeros are written before them. -/
theorem evaluate_digitWord {e : Excerpt} (wf : e.WellFormed)
    (short : e.text.length ≤ env.settings.maxLength) :
    (DigitWord e.text → ∃ last ∈ e.text.getLast?,
      (∀ r : Radix, r.IsMarkedBy last → ∃ p v, r.LongestDigits e.text p ∧
        env.settings.width.wrap? (r.number p) = some v ∧ env.evaluate e = pure v) ∧
      ((∀ r : Radix, ¬r.IsMarkedBy last) →
        let name := e.text.take env.settings.symbolSize
        (∀ v, env.symbols name = some v →
          ∃ w, env.settings.width.wrap? v = some w ∧ env.evaluate e = pure w) ∧
        (env.symbols name = none → ∃ token : Excerpt, token.text = e.text ∧
          env.evaluate e = (do
            report (.undefinedSymbol name) token
            return 0)))) ∧
    ∀ (r : Radix) (zeros n : Nat),
      (zeros = 0 → ∀ c ∈ (r.written 0 n).head?, c ∈ Radix.digits .decimal) →
      e.text = r.written zeros n →
        ∃ v, env.settings.width.wrap? n = some v ∧ env.evaluate e = pure v := by
  constructor
  · intro word
    obtain ⟨last, ends, kind⟩ := word.exists_last
    refine ⟨last, ends, ?_, ?_⟩
    · intro r mark
      rw [Radix.ofLast?_eq_some_iff.mpr mark] at kind
      exact evaluate_marked pos apart wf short word kind
    · intro unmarked name
      have none : Radix.ofLast? last = none := by
        rw [Option.eq_none_iff_forall_ne_some]
        intro r known
        exact unmarked r (Radix.ofLast?_eq_some_iff.mp known)
      rw [none] at kind
      obtain ⟨token, spelled, looked⟩ := evaluate_unmarked apart wf short word kind
      have asked : token.text.take env.settings.symbolSize = name := by rw [spelled]
      constructor
      · intro v known
        refine ⟨_, Width.wrap?_eq_wrapped pos v, ?_⟩
        simp only [looked, lookup, asked, known, wrap_eq pos]
      · intro unknown
        refine ⟨token, spelled, ?_⟩
        simp only [looked, lookup, asked, unknown]
  · intro r zeros n guarded written
    obtain ⟨l, _, value, text⟩ := r.exists_literal guarded
    rw [← value]
    exact evaluate_number pos apart wf short l (written.trans text.symm)

omit pos apart in
/-- Behind the last octal digit in front there may be anything, as long as the `O` comes last. The
symbol has a value that is cut to the width. -/
theorem evaluate_digitWord_octal :
    let settings : Settings := { Settings.default with width := .bits 8 }
    let env : Env := ⟨settings, Bindings.find? [("7Z".toList, 300)], fun _ => 0⟩
    let Fits (e : Excerpt) : Prop := e.WellFormed ∧ e.text.length ≤ env.settings.maxLength
    let octal := Excerpt.ofText "10B2O".toList
    let symbol := Excerpt.ofText "7Z".toList
    let padded := Excerpt.ofText "0FFH".toList
    env.settings.width.Positive ∧ env.settings.delimiter ∉ Radix.digits .decimal ∧
      Fits octal ∧ DigitWord octal.text ∧ Fits symbol ∧ DigitWord symbol.text ∧ Fits padded ∧
      padded.text = Radix.hexadecimal.written 1 255 ∧ env.evaluate octal = pure 8 ∧
      env.evaluate symbol = pure 44 ∧ env.evaluate padded = pure (-1) := by
  intro settings env Fits octal symbol padded
  have pos : env.settings.width.Positive := by decide
  have apart : env.settings.delimiter ∉ Radix.digits .decimal := by decide
  have fitsOctal : Fits octal := ⟨Excerpt.wellFormed_ofText _, by decide⟩
  have fitsSymbol : Fits symbol := ⟨Excerpt.wellFormed_ofText _, by decide⟩
  have fitsPadded : Fits padded := ⟨Excerpt.wellFormed_ofText _, by decide⟩
  have wordOctal : DigitWord octal.text := by decide
  have wordSymbol : DigitWord symbol.text := by decide
  have written : padded.text = Radix.hexadecimal.written 1 255 := by decide +kernel
  refine ⟨pos, apart, fitsOctal, wordOctal, fitsSymbol, wordSymbol, fitsPadded, written, ?_, ?_, ?_⟩
  · obtain ⟨last, ends, marked, _⟩ :=
      (evaluate_digitWord pos apart fitsOctal.1 fitsOctal.2).1 wordOctal
    obtain rfl : 'O' = last := Option.some.inj ends
    obtain ⟨p, v, longest, held, step⟩ := marked .octal rfl
    obtain rfl : p = "10".toList := longest.unique (Radix.longestDigits_takeWhile .octal _)
    have eight : env.settings.width.wrap? (Radix.number .octal "10".toList) = some 8 := by
      decide +kernel
    rw [step, Option.some.inj (held.symm.trans eight)]
  · obtain ⟨last, ends, _, unmarked⟩ :=
      (evaluate_digitWord pos apart fitsSymbol.1 fitsSymbol.2).1 wordSymbol
    obtain rfl : 'Z' = last := Option.some.inj ends
    have none : ∀ r : Radix, ¬r.IsMarkedBy 'Z' := by
      intro r
      cases r <;> decide
    obtain ⟨w, held, step⟩ := (unmarked none).1 300 rfl
    have cut : env.settings.width.wrap? 300 = some 44 := by decide +kernel
    rw [step, Option.some.inj (held.symm.trans cut)]
  · obtain ⟨v, held, step⟩ := (evaluate_digitWord pos apart fitsPadded.1 fitsPadded.2).2
      .hexadecimal 1 255 (fun none => by cases none) written
    have negative : env.settings.width.wrap? (255 : Nat) = some (-1) := by decide +kernel
    rw [step, Option.some.inj (held.symm.trans negative)]

end Env

end AsmOperand
