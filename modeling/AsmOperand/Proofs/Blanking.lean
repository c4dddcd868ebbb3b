import AsmOperand.Proofs.Relocation
import AsmOperand.Proofs.Spelling

/-!
# Words made blank

A word of an operand can be made blank: spaces of the same number are put in its place on the line.
The scan of the new line is the old one without the word, if no parenthesis gets lost with it. What
comes before the word ends where it did, since neither the word nor the first space is part of it.
What comes after it, and what stands around it, is found in the same columns.

`Scan.Omits` says what it is for a scan to be without a word, and `Scan.Erased` that this is the
scan of a line with spaces. The second is followed through the scanner, one lemma a step.
-/

namespace AsmOperand

namespace Text

/-- The text with spaces from column `a` up to column `b`. -/
def blank (a b : Nat) (t : Text) : Text :=
  t.mapIdx fun j c => if a ≤ j ∧ j < b then ' ' else c

section Columns
variable (a b : Nat) (t : Text)

theorem length_blank : (blank a b t).length = t.length := List.length_mapIdx

theorem getElem?_blank (j : Nat) :
    (blank a b t)[j]? = t[j]?.map fun c => if a ≤ j ∧ j < b then ' ' else c :=
  List.getElem?_mapIdx

theorem take_blank (n : Nat) : (blank a b t).take n = blank a b (t.take n) := by
  apply List.ext_getElem?
  intro j
  rw [getElem?_blank, List.getElem?_take, List.getElem?_take, getElem?_blank]
  split
  · rfl
  · rfl

theorem drop_blank (n : Nat) : (blank a b t).drop n = blank (a - n) (b - n) (t.drop n) := by
  apply List.ext_getElem?
  intro j
  have columns : a ≤ n + j ∧ n + j < b ↔ a - n ≤ j ∧ j < b - n := by omega
  simp only [getElem?_blank, List.getElem?_drop, columns]

variable {a b}

theorem getElem?_blank_before {j : Nat} (before : j < a) : (blank a b t)[j]? = t[j]? := by
  have outside : ¬(a ≤ j ∧ j < b) := by omega
  simp only [getElem?_blank, if_neg outside, Option.map_id']

theorem blank_of_le (empty : b ≤ a) : blank a b t = t := by
  apply List.ext_getElem?
  intro j
  have none : ¬(a ≤ j ∧ j < b) := by omega
  simp only [getElem?_blank, if_neg none, Option.map_id']

theorem blank_of_length_le (short : t.length ≤ a) : blank a b t = t := by
  apply List.ext_getElem?
  intro j
  rw [getElem?_blank]
  by_cases inside : j < t.length
  · have before : ¬(a ≤ j ∧ j < b) := by omega
    simp only [if_neg before, Option.map_id']
  · rw [List.getElem?_eq_none (Nat.le_of_not_lt inside)]
    rfl

end Columns

theorem blank_cons (a b : Nat) (c : Char) (t : Text) :
    blank (a + 1) (b + 1) (c :: t) = c :: blank a b t := by
  simp [blank, List.mapIdx_cons]

theorem blank_zero_cons (b : Nat) (c : Char) (t : Text) :
    blank 0 (b + 1) (c :: t) = ' ' :: blank 0 b t := by
  simp [blank, List.mapIdx_cons]

/-- Spaces behind a character leave it as it is. -/
theorem drop_blank_cons {i p q : Nat} {t : Text} {c : Char} {rest : Text}
    (ht : t.drop i = c :: rest) :
    (blank (i + 1 + p) (i + 1 + q) t).drop i = c :: rest.blank p q := by
  have first : i + 1 + p - i = p + 1 := by omega
  have last : i + 1 + q - i = q + 1 := by omega
  rw [drop_blank, ht, first, last, blank_cons]

/-- What is taken from the start of a text stays, if the first space comes after it or ends it. -/
theorem takeWhile_blank {p : Char → Bool} {a b : Nat} {t : Text} (order : a < b)
    (inside : b ≤ t.length) (before : (t.takeWhile p).length ≤ a)
    (stop : p ' ' = false ∨ (t.takeWhile p).length < a) :
    (blank a b t).takeWhile p = t.takeWhile p := by
  induction t generalizing a b with
  | nil => exact absurd inside (by rw [List.length_nil]; omega)
  | cons c t ih =>
    obtain ⟨b, rfl⟩ := Nat.exists_eq_add_one.mpr (Nat.lt_of_le_of_lt (Nat.zero_le a) order)
    cases a with
    | zero =>
      have none : (c :: t).takeWhile p = [] := List.eq_nil_of_length_eq_zero (by omega)
      have stops : p ' ' = false := stop.resolve_right (Nat.not_lt_zero _)
      rw [blank_zero_cons, none, List.takeWhile_cons, stops]
      rfl
    | succ a =>
      rw [blank_cons]
      by_cases h : p c = true
      · rw [List.takeWhile_cons_of_pos h, List.length_cons] at before stop
        rw [List.length_cons] at inside
        rw [List.takeWhile_cons_of_pos h, List.takeWhile_cons_of_pos h,
          ih (by omega) (by omega) (by omega) (stop.imp id Nat.lt_of_succ_lt_succ)]
      · rw [List.takeWhile_cons_of_neg h, List.takeWhile_cons_of_neg h]

theorem eq_false_of_takeWhile {p : Char → Bool} {t : Text} {c : Char}
    (next : t[(t.takeWhile p).length]? = some c) : p c = false := by
  induction t with
  | nil => cases next
  | cons d t ih =>
    by_cases h : p d = true
    · rw [List.takeWhile_cons_of_pos h, List.length_cons, List.getElem?_cons_succ] at next
      exact ih next
    · rw [List.takeWhile_cons_of_neg h] at next
      cases next
      exact Bool.eq_false_iff.mpr h

end Text

namespace Scan

/-- Spaces in place of no parenthesis leave the end of a group where it is. -/
theorem groupLength?_blank {nested : Bool} {depth a b : Nat} {t : Text}
    (plain : ∀ c ∈ (t.drop a).take (b - a), c ≠ '(' ∧ c ≠ ')') :
    groupLength? nested depth (t.blank a b) = groupLength? nested depth t := by
  induction t generalizing depth a b with
  | nil => rfl
  | cons c t ih =>
    cases b with
    | zero => rw [Text.blank_of_le _ (Nat.zero_le a)]
    | succ b =>
      cases a with
      | zero =>
        obtain ⟨⟨notOpen, notClose⟩, others⟩ := List.forall_mem_cons.mp plain
        rw [Text.blank_zero_cons, groupLength?_plain (by decide) (by decide),
          groupLength?_plain notOpen notClose, ih (a := 0) others]
      | succ a =>
        rw [List.drop_succ_cons, Nat.add_sub_add_right] at plain
        rw [Text.blank_cons, groupLength?.eq_def, groupLength?.eq_def nested depth (c :: t)]
        simp only [ih plain]

/-- Spaces behind the end of a string leave the string as it is. -/
theorem length_stringChars_blank {delimiter : Char} {t : Text} {n a b : Nat}
    (length : (stringChars delimiter t).length = n) (order : a < b) (inside : b ≤ t.length)
    (behind : n < a) : (stringChars delimiter (t.blank a b)).length = n := by
  simp only [stringChars] at length ⊢
  rw [Text.takeWhile_blank order inside (by omega) (.inr (by omega)), length]

/-- Spaces behind a word leave the word as it is, also if the first one ends it. -/
theorem wordLength_blank {c : Char} {t : Text} {n a b : Nat} (length : wordLength c t = n)
    (order : a < b) (inside : b ≤ t.length) (behind : n ≤ a) : wordLength c (t.blank a b) = n := by
  simp only [wordLength] at length ⊢
  by_cases operator : isOperator c = true
  · rwa [if_pos operator] at length ⊢
  · rw [if_neg operator] at length ⊢
    rw [Text.takeWhile_blank order inside (by omega) (.inl (by decide)), length]

/-- A string that is not closed ends before a newline or with the text. -/
theorem isBlank_of_unended {delimiter : Char} {t : Text} {n : Nat}
    (length : (stringChars delimiter t).length = n) (lasts : t[n]? ≠ some delimiter) {c : Char}
    (next : t[n]? = some c) : Text.isBlank c = true := by
  subst length
  have first := Text.eq_false_of_takeWhile next
  simp only [decide_eq_false_iff_not, not_and_or, not_not] at first
  rcases first with rfl | rfl
  · exact absurd next lasts
  · rfl

/-- Blanks before a text are passed over. -/
theorem ofChars_blank_zero (s : Settings) (e : Excerpt) (i n : Nat) {t : Text}
    (inside : n ≤ t.length) : ofChars s e i (t.blank 0 n) = ofChars s e (i + n) (t.drop n) := by
  induction n generalizing i t with
  | zero => rw [Text.blank_of_le _ (Nat.le_refl 0), Nat.add_zero, List.drop_zero]
  | succ n ih =>
    cases t with
    | nil => exact absurd inside (Nat.not_succ_le_zero n)
    | cons c t =>
      rw [Text.blank_zero_cons, ofChars_blank s e i Text.isBlank_space,
        ih (i + 1) (Nat.le_of_succ_le_succ inside), List.drop_succ_cons, Nat.add_right_comm i 1 n]
      rfl

/-- The second scan has the same parts but for one word. -/
inductive Omits (overlong : Option Excerpt) (token : Excerpt) : Scan → Scan → Prop where
  | here (rest : Scan) : Omits overlong token (.word overlong token rest) rest
  | body (long : Option Excerpt) {body body' : Scan} (rest : Scan)
    (inBody : Omits overlong token body body') :
    Omits overlong token (.group long body rest) (.group long body' rest)
  | group (long : Option Excerpt) (body : Scan) {rest rest' : Scan}
    (inRest : Omits overlong token rest rest') :
    Omits overlong token (.group long body rest) (.group long body rest')
  | quoted (unended long : Option Excerpt) (chars : Text) {rest rest' : Scan}
    (inRest : Omits overlong token rest rest') :
    Omits overlong token (.quoted unended long chars rest) (.quoted unended long chars rest')
  | word (long : Option Excerpt) (other : Excerpt) {rest rest' : Scan}
    (inRest : Omits overlong token rest rest') :
    Omits overlong token (.word long other rest) (.word long other rest')

/-- The words of a scan in full, in reading order. -/
def words : Scan → List Excerpt
  | .done => []
  | .unclosed _ => []
  | .group _ body rest => body.words ++ rest.words
  | .quoted _ _ _ rest => rest.words
  | .word overlong token rest => overlong.getD token :: rest.words

/-- What counts of an excerpt and what is too long of it make the excerpt. -/
theorem getD_clip (limit : Nat) (e : Excerpt) :
    (clip limit e).overlong.getD (clip limit e).kept = e := by
  simp only [clip]
  split
  · rfl
  · rfl

theorem mem_words_of_omits {overlong : Option Excerpt} {token : Excerpt} {s s' : Scan}
    (h : Omits overlong token s s') : overlong.getD token ∈ s.words := by
  induction h with
  | here rest => exact List.mem_cons_self
  | body long rest _ ih => exact List.mem_append_left _ ih
  | group long body _ ih => exact List.mem_append_right _ ih
  | quoted unended long chars _ ih => exact ih
  | word long other _ ih => exact List.mem_cons_of_mem _ ih

end Scan

namespace Excerpt

/-- The same span on another line. -/
def onLine (line : Text) (e : Excerpt) : Excerpt := { e with line := line }

/-- The line with spaces in the place of the excerpt. -/
def blankedLine (e : Excerpt) : Text := e.line.blank e.start.toNat e.stop.toNat

theorem relocation_onLine (line : Text) : Relocation (onLine line) :=
  ⟨fun _ _ _ => rfl, fun _ => rfl⟩

section Blanked
variable {e : Excerpt} (wf : e.WellFormed) {a b : Nat} (order : a ≤ b)
include wf

theorem wellFormed_onLine_blanked (part : Excerpt) (same : part.line = e.line) :
    (e.onLine part.blankedLine).WellFormed := by
  rw [WellFormed, blankedLine, onLine, Text.length_blank, same]
  exact wf

theorem text_part_behind {i p q : Nat} {c : Char} {rest : Text} (ht : e.text.drop i = c :: rest)
    (forward : p ≤ q) (inside : q ≤ rest.length) :
    (e.sub (i + 1 + p) (i + 1 + q)).text = (rest.drop p).take (q - p) := by
  obtain ⟨_, _, room, next⟩ := start_of_drop wf ht
  have columns : i + 1 + q - (i + p + 1) = q - p := by omega
  rw [text_sub wf (by omega) (by omega), Nat.add_right_comm i 1 p, next, columns]

include order

theorem text_onLine_blanked : (e.onLine (e.sub a b).blankedLine).text = e.text.blank a b := by
  have wf' := wellFormed_onLine_blanked wf (e.sub a b) rfl
  have positive := wf.1
  have first : (e.start + a).toNat - e.start.toNat = a := by omega
  have last : (e.start + max a b).toNat - e.start.toNat = b := by omega
  rw [text_eq wf', text_eq wf]
  simp only [onLine, blankedLine, sub, withSpan, Text.drop_blank, Text.take_blank, first, last]

theorem copied_behind {j : Nat} (behind : b ≤ j) : Copied (onLine (e.sub a b).blankedLine) e j := by
  refine ⟨wf, wellFormed_onLine_blanked wf (e.sub a b) rfl, ?_⟩
  rw [text_onLine_blanked wf order, Text.drop_blank, Text.blank_of_le]
  omega

/-- What comes before the spaces and counts is the same. -/
theorem copied_clip {w : Excerpt} (word : w = e.sub a b) {x y : Nat} (before : y ≤ a) (cut : x ≤ y)
    (inside : y ≤ e.text.length) (limit : Nat) :
    Copied (onLine w.blankedLine) (Scan.clip limit (e.sub x y)).kept 0 := by
  have wf' := wellFormed_onLine_blanked wf w (by rw [word, sub, withSpan])
  have relocation := relocation_onLine w.blankedLine
  have same := relocation.length_text wf wf'
  have copied : Copied (onLine w.blankedLine) (e.sub x y) 0 := by
    refine ⟨wellFormed_sub wf (by omega) inside, ?_, ?_⟩
    · exact relocation.wellFormed_sub wf wf' (by omega) inside
    · rw [relocation.sub, text_sub wf' (by omega) (by omega), text_sub wf (by omega) inside, word,
        text_onLine_blanked wf order, Text.drop_blank, Text.take_blank, Text.blank_of_length_le]
      rw [List.length_take]
      omega
  exact copied.clip relocation limit

end Blanked

end Excerpt

namespace Scan

/-- `w` is a word from column `i` on. Without it the scan is that of the line with spaces in the
place of the word, if parentheses do not get lost with it. -/
structure Erased (s : Settings) (e : Excerpt) (i : Nat) (w : Excerpt) (s' : Scan) : Prop where
  part : ∃ a b, i ≤ a ∧ a < b ∧ b ≤ e.text.length ∧ w = e.sub a b
  starts : ∀ c ∈ w.text.head?, Text.isBlank c = false
  scan : (∀ c ∈ w.text, c ≠ '(' ∧ c ≠ ')') →
    Relocated (Excerpt.onLine w.blankedLine) s' (ofChars s (e.onLine w.blankedLine) i
      ((e.onLine w.blankedLine).text.drop i))

theorem clip_onLine (limit : Nat) (line : Text) (e : Excerpt) (a b : Nat) :
    clip limit ((e.onLine line).sub a b) = ⟨(clip limit (e.sub a b)).kept.onLine line,
      (clip limit (e.sub a b)).overlong.map (Excerpt.onLine line)⟩ :=
  (Excerpt.relocation_onLine line).clip limit (e.sub a b)

section Erased
variable {s : Settings} {e : Excerpt} (wf : e.WellFormed) {i : Nat} {w : Excerpt} {c : Char}
  {rest : Text} (ht : e.text.drop i = c :: rest) {s' t' : Scan}
include wf ht

/-- The word that the text goes on with. -/
theorem erased_here (notBlank : ¬Text.isBlank c = true) {n : Nat} (inside : n ≤ rest.length) :
    Erased s e i (e.sub i (i + 1 + n)) (ofChars s e (i + n + 1) (rest.drop n)) := by
  obtain ⟨_, _, room, next⟩ := Excerpt.start_of_drop wf ht
  obtain ⟨_, text⟩ := Excerpt.part_from wf ht inside
  have order : i ≤ i + 1 + n := by omega
  refine ⟨⟨i, _, Nat.le_refl i, by omega, by omega, rfl⟩, ?_, ?_⟩
  · rw [text]
    rintro d ⟨⟩
    exact Bool.eq_false_iff.mpr notBlank
  · intro _
    have last : i + 1 + n - i = n + 1 := by omega
    have copied := Excerpt.copied_behind wf order (j := i + n + 1) (by omega)
    rw [Excerpt.text_onLine_blanked wf order, Text.drop_blank, Nat.sub_self, last,
      ofChars_blank_zero s _ i (n + 1) (by rw [ht, List.length_cons]; omega), ht,
      List.drop_succ_cons]
    exact relocated_ofChars s (Excerpt.relocation_onLine _) copied (next n)

/-- A word that comes later. What is left to show is how the text with spaces is scanned. -/
theorem erased_later {p q : Nat} (order : p < q) (inside : q ≤ rest.length)
    (word : w = e.sub (i + 1 + p) (i + 1 + q)) (starts : ∀ c ∈ w.text.head?, Text.isBlank c = false)
    (go : (∀ c ∈ w.text, c ≠ '(' ∧ c ≠ ')') →
      Relocated (Excerpt.onLine w.blankedLine) t'
        (ofChars s (e.onLine w.blankedLine) i (c :: rest.blank p q))) :
    Erased s e i w t' := by
  obtain ⟨_, _, room, _⟩ := Excerpt.start_of_drop wf ht
  refine ⟨⟨_, _, by omega, by omega, by omega, word⟩, starts, ?_⟩
  subst word
  rw [Excerpt.text_onLine_blanked wf (by omega), Text.drop_blank_cons ht]
  exact go

/-- A word that stands `m` characters or more behind the first one. -/
theorem Erased.later {m : Nat} (erased : Erased s e (i + m + 1) w s')
    (go : ∀ p q, m ≤ p → p < q → q ≤ rest.length → w = e.sub (i + 1 + p) (i + 1 + q) →
      (∀ c ∈ w.text, c ≠ '(' ∧ c ≠ ')') →
      Relocated (Excerpt.onLine w.blankedLine) s'
        (ofChars s (e.onLine w.blankedLine) (i + m + 1) ((rest.blank p q).drop m)) →
      Relocated (Excerpt.onLine w.blankedLine) t'
        (ofChars s (e.onLine w.blankedLine) i (c :: rest.blank p q))) :
    Erased s e i w t' := by
  obtain ⟨_, _, room, _⟩ := Excerpt.start_of_drop wf ht
  obtain ⟨⟨a, b, behind, order, inside, rfl⟩, starts, scan⟩ := erased
  obtain ⟨p, rfl⟩ := Nat.exists_eq_add_of_le (show i + 1 ≤ a by omega)
  obtain ⟨q, rfl⟩ := Nat.exists_eq_add_of_le (show i + 1 ≤ b by omega)
  have wf' := Excerpt.wellFormed_onLine_blanked wf (e.sub (i + 1 + p) (i + 1 + q)) rfl
  have here := Text.drop_blank_cons (p := p) (q := q) ht
  rw [← Excerpt.text_onLine_blanked wf (by omega)] at here
  obtain ⟨_, _, _, next⟩ := Excerpt.start_of_drop wf' here
  rw [next m] at scan
  refine erased_later wf ht (by omega) (by omega) rfl starts ?_
  intro plain
  exact go p q (by omega) (by omega) (by omega) rfl plain (scan plain)

theorem Erased.behindBlank (blank : Text.isBlank c = true) (erased : Erased s e (i + 1) w s') :
    Erased s e i w s' := by
  apply erased.later wf ht (m := 0)
  intro p q _ _ _ _ _ scan
  rw [ofChars_blank s _ i blank]
  exact scan

/-- A group ends where it did. -/
theorem groupLength?_blanked {n p q : Nat} (closes : groupLength? s.nested 0 rest = some n)
    (order : p < q) (inside : q ≤ rest.length) (word : w = e.sub (i + 1 + p) (i + 1 + q))
    (plain : ∀ c ∈ w.text, c ≠ '(' ∧ c ≠ ')') :
    groupLength? s.nested 0 (rest.blank p q) = some n := by
  rw [word, Excerpt.text_part_behind wf ht (Nat.le_of_lt order) inside] at plain
  rw [groupLength?_blank plain, closes]

/-- The word stands in a group. -/
theorem Erased.inGroup {n : Nat} (closes : groupLength? s.nested 0 rest = some n) (opens : c = '(')
    (erased : Erased s (clip s.maxLength (e.sub (i + 1) (i + 1 + n))).kept 0 w s') :
    Erased s e i w (.group (clip s.maxLength (e.sub (i + 1) (i + 1 + n))).overlong s'
      (ofChars s e (i + n + 2) (rest.drop (n + 1)))) := by
  obtain ⟨_, _, room, next⟩ := Excerpt.start_of_drop wf ht
  have shorter := lt_length_of_groupLength? closes
  have room' := length_kept_le s.maxLength e (i + 1) (i + 1 + n)
  obtain ⟨⟨a, b, _, order, inside, word⟩, starts, scan⟩ := erased
  have word' : w = e.sub (i + 1 + a) (i + 1 + b) := by
    rw [word]
    simp only [clip]
    split
    · exact Excerpt.sub_sub e _ _ a b
    · simp only [Excerpt.sub_sub, Nat.add_zero]
  subst opens
  refine erased_later wf ht order (by omega) word' starts ?_
  intro plain
  have closes' := groupLength?_blanked wf ht closes order (by omega) word' plain
  rw [ofChars_group s _ i closes', clip_onLine, Text.drop_blank, Text.blank_of_le _ (by omega)]
  have copied : Excerpt.Copied (Excerpt.onLine w.blankedLine) e (i + n + 2) := by
    rw [word']
    exact Excerpt.copied_behind wf (by omega) (by omega)
  refine .group _ (scan plain) ?_
  exact relocated_ofChars s (Excerpt.relocation_onLine _) copied (next (n + 1))

theorem Erased.behindGroup {n : Nat} (closes : groupLength? s.nested 0 rest = some n)
    (opens : c = '(') (erased : Erased s e (i + n + 2) w s') :
    Erased s e i w (.group (clip s.maxLength (e.sub (i + 1) (i + 1 + n))).overlong
      ((clip s.maxLength (e.sub (i + 1) (i + 1 + n))).kept.scan s) s') := by
  obtain ⟨_, _, room, _⟩ := Excerpt.start_of_drop wf ht
  subst opens
  apply erased.later wf ht (m := n + 1)
  intro p q behind order inside word plain scan
  have closes' := groupLength?_blanked wf ht closes order inside word plain
  have inBody := Excerpt.copied_clip wf (by omega) word (x := i + 1) (y := i + 1 + n) (by omega)
    (by omega) (by omega) s.maxLength
  rw [ofChars_group s _ i closes', clip_onLine]
  refine .group _ ?_ scan
  rw [Excerpt.scan, Excerpt.scan, inBody.text]
  exact relocated_ofChars s (Excerpt.relocation_onLine _) inBody rfl

theorem Erased.behindClosed (notBlank : ¬Text.isBlank c = true) (notOpen : c ≠ '(')
    (quote : c = s.delimiter) {n : Nat} (length : (stringChars s.delimiter rest).length = n)
    (closed : rest[n]? = some s.delimiter) (erased : Erased s e (i + n + 2) w s') :
    Erased s e i w (.quoted none (clip s.maxLength (e.sub (i + 1) (i + 1 + n))).overlong
      (clip s.maxLength (e.sub (i + 1) (i + 1 + n))).kept.text s') := by
  obtain ⟨_, _, room, _⟩ := Excerpt.start_of_drop wf ht
  apply erased.later wf ht (m := n + 1)
  intro p q behind order inside word _ scan
  have length' := length_stringChars_blank length order inside (by omega)
  have closed' : (rest.blank p q)[n]? = some s.delimiter := by
    rw [Text.getElem?_blank_before _ (by omega), closed]
  have inBody := Excerpt.copied_clip wf (by omega) word (x := i + 1) (y := i + 1 + n) (by omega)
    (by omega) (by omega) s.maxLength
  rw [ofChars_closed s _ i notBlank notOpen quote length' closed', clip_onLine, inBody.text]
  exact .quoted none _ _ scan

theorem Erased.behindUnended (notBlank : ¬Text.isBlank c = true) (notOpen : c ≠ '(')
    (quote : c = s.delimiter) {n : Nat} (length : (stringChars s.delimiter rest).length = n)
    (lasts : rest[n]? ≠ some s.delimiter) (erased : Erased s e (i + n + 1) w s') :
    Erased s e i w (.quoted (some (e.sub i (i + 1 + n)))
      (clip s.maxLength (e.sub (i + 1) (i + 1 + n))).overlong
      (clip s.maxLength (e.sub (i + 1) (i + 1 + n))).kept.text s') := by
  obtain ⟨_, _, room, _⟩ := Excerpt.start_of_drop wf ht
  have starts := erased.starts
  apply erased.later wf ht (m := n)
  intro p q behind order inside word _ scan
  -- A word cannot start with the newline that the string ends before.
  have strict : n < p := by
    refine Nat.lt_of_le_of_ne behind ?_
    rintro rfl
    have first : w.text.head? = rest[n]? := by
      rw [word, Excerpt.text_part_behind wf ht (Nat.le_of_lt order) inside, List.head?_take,
        if_neg (by omega), List.head?_drop]
    have room : rest[n]? = some rest[n] := List.getElem?_eq_getElem (by omega)
    have seen := starts rest[n] (first.trans room)
    rw [isBlank_of_unended length lasts room] at seen
    cases seen
  have length' := length_stringChars_blank length order inside (by omega)
  have lasts' : (rest.blank p q)[n]? ≠ some s.delimiter := by
    rwa [Text.getElem?_blank_before _ strict]
  have inBody := Excerpt.copied_clip wf (by omega) word (x := i + 1) (y := i + 1 + n) (by omega)
    (by omega) (by omega) s.maxLength
  rw [ofChars_unended s _ i notBlank notOpen quote length' lasts', clip_onLine, inBody.text]
  exact .quoted (some _) _ _ scan

theorem Erased.behindWord (notBlank : ¬Text.isBlank c = true) (notOpen : c ≠ '(')
    (notQuote : c ≠ s.delimiter) {n : Nat} (length : wordLength c rest = n)
    (erased : Erased s e (i + n + 1) w s') :
    Erased s e i w (.word (clip s.maxLength (e.sub i (i + 1 + n))).overlong
      (clip s.maxLength (e.sub i (i + 1 + n))).kept s') := by
  obtain ⟨_, _, room, _⟩ := Excerpt.start_of_drop wf ht
  apply erased.later wf ht (m := n)
  intro p q behind order inside word _ scan
  have length' := wordLength_blank length order inside behind
  have inWord := Excerpt.copied_clip wf (by omega) word (x := i) (y := i + 1 + n) (by omega)
    (by omega) (by omega) s.maxLength
  rw [ofChars_word s _ i notBlank notOpen notQuote length', clip_onLine]
  exact .word _ inWord.text scan

end Erased

/-- A word that a scan omits can be made blank instead. -/
theorem erased_of_omits (s : Settings) {e : Excerpt} {i : Nat} {t : Text} (wf : e.WellFormed)
    (ht : e.text.drop i = t) {overlong : Option Excerpt} {token : Excerpt} {s' : Scan}
    (h : Omits overlong token (ofChars s e i t) s') :
    ∃ w, clip s.maxLength w = ⟨token, overlong⟩ ∧ Erased s e i w s' := by
  fun_induction ofChars s e i t generalizing s' with
  | case1 e i => cases h
  | case2 e i c rest blank ih =>
    obtain ⟨_, _, _, next⟩ := Excerpt.start_of_drop wf ht
    obtain ⟨w, whole, erased⟩ := ih wf (next 0) h
    exact ⟨w, whole, erased.behindBlank wf ht blank⟩
  | case3 e i rest lasts notBlank => cases h
  | case4 e i rest n closes body notBlank ihBody ihRest =>
    obtain ⟨_, _, room, next⟩ := Excerpt.start_of_drop wf ht
    have inside := lt_length_of_groupLength? closes
    cases h with
    | body long rest' inBody =>
      have bodyWf := wellFormed_clip (Excerpt.wellFormed_sub wf (a := i + 1) (b := i + 1 + n)
        (by omega) (by omega)) s.maxLength
      obtain ⟨w, whole, erased⟩ := ihBody bodyWf rfl inBody
      exact ⟨w, whole, erased.inGroup wf ht closes rfl⟩
    | group long body' inRest =>
      obtain ⟨w, whole, erased⟩ := ihRest wf (next (n + 1)) inRest
      exact ⟨w, whole, erased.behindGroup wf ht closes rfl⟩
  | case5 e i rest n body closed notBlank notOpen ih =>
    obtain ⟨_, _, _, next⟩ := Excerpt.start_of_drop wf ht
    cases h with
    | quoted unended long chars inRest =>
      obtain ⟨w, whole, erased⟩ := ih wf (next (n + 1)) inRest
      exact ⟨w, whole, erased.behindClosed wf ht notBlank notOpen rfl rfl closed⟩
  | case6 e i rest n body lasts notBlank notOpen ih =>
    obtain ⟨_, _, _, next⟩ := Excerpt.start_of_drop wf ht
    cases h with
    | quoted unended long chars inRest =>
      obtain ⟨w, whole, erased⟩ := ih wf (next n) inRest
      exact ⟨w, whole, erased.behindUnended wf ht notBlank notOpen rfl rfl lasts⟩
  | case7 e i c rest notBlank notOpen notQuote n token' ih =>
    obtain ⟨_, _, _, next⟩ := Excerpt.start_of_drop wf ht
    cases h with
    | here rest' =>
      exact ⟨e.sub i (i + 1 + n), rfl, erased_here wf ht notBlank (wordLength_le c rest)⟩
    | word long other inRest =>
      obtain ⟨w, whole, erased⟩ := ih wf (next n) inRest
      exact ⟨w, whole, erased.behindWord wf ht notBlank notOpen notQuote rfl⟩

end Scan

end AsmOperand
