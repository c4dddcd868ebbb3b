import AsmOperand.Scan
import Mathlib.Data.List.TakeWhile

/-!
# Cuts of an excerpt

Cutting an excerpt that lies on its line is cutting its text, and the parts lie on the line too.
Cutting a part is cutting the whole further in.
-/

namespace AsmOperand.Excerpt

theorem sub_sub (e : Excerpt) (a b c d : Nat) : (e.sub a b).sub c d = e.sub (a + c) (a + d) := by
  simp only [sub, withSpan, mk.injEq, true_and]
  omega

theorem tail_sub (e : Excerpt) (a c d : Nat) : (e.tail a).sub c d = e.sub (a + c) (a + d) :=
  sub_sub e a _ c d

theorem tail_tail (e : Excerpt) (a b : Nat) : (e.tail a).tail b = e.tail (a + b) := by
  simp only [tail, length, sub, withSpan, mk.injEq, true_and]
  omega

theorem length_tail (e : Excerpt) (a : Nat) : (e.tail a).length = (e.length.toNat - a : Nat) :=
  length_sub e a _

theorem tail_zero {e : Excerpt} (wf : e.WellFormed) : e.tail 0 = e := by
  obtain ⟨path, number, line, start, stop⟩ := e
  have forward : start ≤ stop := wf.2.1
  simp only [tail, length, sub, withSpan, mk.injEq, true_and]
  omega

theorem isBackward_eq_false {e : Excerpt} (wf : e.WellFormed) : e.isBackward = false := by
  have := wf.2.1
  simp only [isBackward, decide_eq_false_iff_not]
  omega

/-- A whole line is a span of itself. -/
theorem wellFormed_ofLine (path : String) (lineNumber : Option Int) (t : Text) :
    (ofLine path lineNumber t).WellFormed := by
  simp [ofLine, WellFormed]

theorem text_ofLine (path : String) (lineNumber : Option Int) (t : Text) :
    (ofLine path lineNumber t).text = t := by
  have h := Text.slice_nat t (Nat.zero_le _) (Nat.le_refl t.length)
  simpa [text, ofLine] using h

theorem wellFormed_ofText (t : Text) : (ofText t).WellFormed := wellFormed_ofLine _ _ t

theorem text_ofText (t : Text) : (ofText t).text = t := text_ofLine _ _ t

theorem text_eq {e : Excerpt} (wf : e.WellFormed) :
    e.text = (e.line.drop e.start.toNat).take (e.stop.toNat - e.start.toNat) := by
  obtain ⟨positive, forward, inside⟩ := wf
  have h := Text.slice_nat e.line (a := e.start.toNat) (b := e.stop.toNat) (by omega) (by omega)
  rwa [Int.toNat_of_nonneg positive, Int.toNat_of_nonneg (by omega)] at h

/-- An excerpt has a character for each of its columns. -/
theorem length_eq {e : Excerpt} (wf : e.WellFormed) : e.length = e.text.length := by
  rw [text_eq wf]
  obtain ⟨positive, forward, inside⟩ := wf
  simp only [length, List.length_take, List.length_drop]
  omega

theorem length_text_cons {e : Excerpt} {c : Char} {rest : Text} (h : e.text = c :: rest) :
    e.text.length = rest.length + 1 := by
  rw [h, List.length_cons]

section Part
variable {e : Excerpt} (wf : e.WellFormed) {a b : Nat}
include wf

theorem wellFormed_sub (ha : a ≤ e.text.length) (hb : b ≤ e.text.length) :
    (e.sub a b).WellFormed := by
  have len := length_eq wf
  obtain ⟨positive, forward, inside⟩ := wf
  simp only [length] at len
  simp only [WellFormed, sub, withSpan]
  omega

theorem wellFormed_tail (ha : a ≤ e.text.length) : (e.tail a).WellFormed :=
  wellFormed_sub wf ha (by rw [length_eq wf]; omega)

theorem text_sub (ha : a ≤ e.text.length) (hb : b ≤ e.text.length) :
    (e.sub a b).text = (e.text.drop a).take (b - a) := by
  have len := length_eq wf
  rw [text_eq (wellFormed_sub wf ha hb), text_eq wf, List.drop_take, List.drop_drop, List.take_take]
  obtain ⟨positive, forward, inside⟩ := wf
  simp only [length] at len
  simp only [sub, withSpan]
  congr 1
  · omega
  · congr 1
    omega

theorem text_tail (ha : a ≤ e.text.length) : (e.tail a).text = e.text.drop a := by
  have len := length_eq wf
  rw [tail, text_sub wf ha (by omega), List.take_of_length_le]
  rw [List.length_drop]
  omega

/-- What is left of an excerpt behind the start of its text. -/
theorem tail_of_append {t rest : Text} (ht : e.text = t ++ rest) :
    (e.tail t.length).WellFormed ∧ (e.tail t.length).text = rest := by
  have room := congrArg List.length ht
  rw [List.length_append] at room
  have inside : t.length ≤ e.text.length := by omega
  exact ⟨wellFormed_tail wf inside, by rw [text_tail wf inside, ht, List.drop_left]⟩

/-- A part in the middle of a text. -/
theorem part_between (before t : Text) {after : Text} (ht : e.text = before ++ t ++ after)
    (ha : a = before.length) (hb : b = before.length + t.length) :
    (e.sub a b).WellFormed ∧ (e.sub a b).text = t := by
  subst ha hb
  have room := congrArg List.length ht
  rw [List.length_append, List.length_append] at room
  refine ⟨wellFormed_sub wf (by omega) (by omega), ?_⟩
  rw [text_sub wf (by omega) (by omega), ht, List.append_assoc, List.drop_left,
    Nat.add_sub_cancel_left, List.take_left]

/-- What is known where the text of an excerpt goes on. -/
theorem start_of_drop {i : Nat} {c : Char} {rest : Text}
    (ht : e.text.drop i = c :: rest) :
    (e.tail i).WellFormed ∧ (e.tail i).text = c :: rest ∧ e.text.length = i + 1 + rest.length ∧
      ∀ k, e.text.drop (i + k + 1) = rest.drop k := by
  have room := congrArg List.length ht
  rw [List.length_drop, List.length_cons] at room
  have inside : i ≤ e.text.length := by omega
  refine ⟨wellFormed_tail wf inside, (text_tail wf inside).trans ht, by omega, ?_⟩
  intro k
  rw [Nat.add_assoc, ← List.drop_drop, ht, List.drop_succ_cons]

/-- The part from where the text goes on, up to `n` characters behind its first one. -/
theorem part_from {i n : Nat} {c : Char} {rest : Text} (ht : e.text.drop i = c :: rest)
    (inside : n ≤ rest.length) :
    (e.sub i (i + 1 + n)).WellFormed ∧ (e.sub i (i + 1 + n)).text = c :: rest.take n := by
  obtain ⟨_, _, room, _⟩ := start_of_drop wf ht
  refine ⟨wellFormed_sub wf (by omega) (by omega), ?_⟩
  have columns : i + 1 + n - i = n + 1 := by omega
  rw [text_sub wf (by omega) (by omega), ht, columns, List.take_succ_cons]

/-- The same part without its first character. -/
theorem part_behind {i n : Nat} {c : Char} {rest : Text} (ht : e.text.drop i = c :: rest)
    (inside : n ≤ rest.length) :
    (e.sub (i + 1) (i + 1 + n)).WellFormed ∧ (e.sub (i + 1) (i + 1 + n)).text = rest.take n := by
  obtain ⟨_, _, room, next⟩ := start_of_drop wf ht
  refine ⟨wellFormed_sub wf (by omega) (by omega), ?_⟩
  rw [text_sub wf (by omega) (by omega), Nat.add_sub_cancel_left, next 0, List.drop_zero]

end Part

end AsmOperand.Excerpt

namespace AsmOperand.Scan

theorem length_clip_le (limit : Nat) (e : Excerpt) : (clip limit e).kept.length ≤ e.length := by
  simp only [clip]
  split
  · exact Int.le_refl _
  · rename_i long
    have cut := Excerpt.length_sub e 0 limit
    simp only
    omega

section Clipped
variable {e : Excerpt} (wf : e.WellFormed) (limit : Nat)
include wf

theorem wellFormed_clip : (clip limit e).kept.WellFormed := by
  have len := Excerpt.length_eq wf
  simp only [clip]
  split
  · exact wf
  · exact Excerpt.wellFormed_sub wf (by omega) (by omega)

theorem text_clip : (clip limit e).kept.text = e.text.take limit := by
  have len := Excerpt.length_eq wf
  simp only [clip]
  split
  · rw [List.take_of_length_le (by omega)]
  · rw [Excerpt.text_sub wf (by omega) (by omega), List.drop_zero, Nat.sub_zero]

/-- What is short enough is kept as it is. -/
theorem clip_eq_self (short : e.text.length ≤ limit) : clip limit e = ⟨e, none⟩ := by
  have len := Excerpt.length_eq wf
  rw [clip, if_pos (by omega)]

theorem overlong_clip_eq_none_iff : (clip limit e).overlong = none ↔ e.text.length ≤ limit := by
  have len := Excerpt.length_eq wf
  simp only [clip]
  split
  · rename_i short
    exact iff_of_true rfl (by omega)
  · rename_i long
    exact iff_of_false (Option.some_ne_none e) (by omega)

end Clipped

/-- A short part in the middle of a text counts in full. -/
theorem clip_part {e : Excerpt} (wf : e.WellFormed) (before t : Text) {after : Text}
    (ht : e.text = before ++ t ++ after) {a b limit : Nat} (ha : a = before.length)
    (hb : b = before.length + t.length) (short : t.length ≤ limit) :
    clip limit (e.sub a b) = ⟨e.sub a b, none⟩ ∧ (e.sub a b).WellFormed ∧ (e.sub a b).text = t := by
  obtain ⟨part, spelled⟩ := Excerpt.part_between wf before t ht ha hb
  exact ⟨clip_eq_self part limit (by rwa [spelled]), part, spelled⟩

/-- The characters of a string are those that stand before its end. -/
theorem take_stringChars (delimiter : Char) (rest : Text) :
    rest.take (stringChars delimiter rest).length = stringChars delimiter rest :=
  (List.prefix_iff_eq_take.mp (List.takeWhile_prefix _)).symm

theorem length_stringChars_le (delimiter : Char) (t : Text) :
    (stringChars delimiter t).length ≤ t.length :=
  (List.takeWhile_prefix _).length_le

theorem wordLength_le (c : Char) (rest : Text) : wordLength c rest ≤ rest.length := by
  simp only [wordLength]
  split
  · exact Nat.zero_le _
  · exact (List.takeWhile_prefix _).length_le

/-- Nothing in a word ends it. -/
theorem isWordChar_of_mem_take {c d : Char} {rest : Text}
    (h : d ∈ rest.take (wordLength c rest)) : isWordChar d = true := by
  simp only [wordLength] at h
  split at h
  · cases h
  · rw [← List.prefix_iff_eq_take.mp (List.takeWhile_prefix _)] at h
    exact List.mem_takeWhile_imp h

end AsmOperand.Scan
