import AsmOperand.DefinitionText
import AsmOperand.Proofs.Cuts
import Mathlib.Algebra.Group.Nat.Even
import Mathlib.Data.List.DropRight
import Mathlib.Data.List.Forall2

/-!
# Lines and entries of a definition text

The lines of a text are its pieces between newlines; joined again they are the text, but for a
newline at its end. A line's comment starts at the first semicolon that an even number of string
delimiters stands before. What stands before the comment counts: the entries are the lines on which
this is more than blanks, in order, each with its number, its whole line, and the columns that are
left when the blanks at both ends are taken away.

How a text is decoded from a file is not looked at here, nor what an entry defines.
-/

namespace AsmOperand

namespace Text

/-- An empty piece at the end does not count. -/
def withoutEmptyEnd (parts : List Text) : List Text :=
  if parts.getLast? = some [] then parts.dropLast else parts

theorem withoutEmptyEnd_singleton (part : Text) :
    withoutEmptyEnd [part] = if part = [] then [] else [part] := by
  simp [withoutEmptyEnd]

theorem withoutEmptyEnd_cons_cons (first next : Text) (more : List Text) :
    withoutEmptyEnd (first :: next :: more) = first :: withoutEmptyEnd (next :: more) := by
  simp only [withoutEmptyEnd, List.getLast?_cons_cons, List.dropLast_cons_cons]
  split
  · rfl
  · rfl

theorem lines_eq_splitOn (t : Text) : t.lines = withoutEmptyEnd (t.splitOn '\n') := by
  induction t with
  | nil => rfl
  | cons c rest ih =>
    obtain ⟨first, more, parts⟩ := List.exists_cons_of_ne_nil (List.splitOn_ne_nil '\n' rest)
    rw [lines, ih, List.splitOn_cons_eq_if_modifyHead, parts]
    by_cases newline : c = '\n'
    · rw [if_pos newline, if_pos (beq_iff_eq.mpr newline), withoutEmptyEnd_cons_cons]
    · rw [if_neg newline, if_neg (mt beq_iff_eq.mp newline), List.modifyHead_cons]
      cases more with
      | nil =>
        rw [withoutEmptyEnd_singleton, withoutEmptyEnd_singleton, if_neg (List.cons_ne_nil c first)]
        cases first with
        | nil => rfl
        | cons d first => rfl
      | cons next more => rw [withoutEmptyEnd_cons_cons, withoutEmptyEnd_cons_cons]

/-- An empty piece at the end is joined to the others by a newline. -/
theorem intercalate_concat_nil (first : Text) (more : List Text) :
    ['\n'].intercalate (first :: more ++ [[]]) = ['\n'].intercalate (first :: more) ++ ['\n'] := by
  induction more generalizing first with
  | nil => simp
  | cons next more ih =>
    rw [List.cons_append, List.cons_append, List.intercalate_cons_cons, ← List.cons_append, ih,
      List.intercalate_cons_cons]
    simp only [List.append_assoc]

/-- The lines, joined again, are the text but for a newline at its end. -/
theorem intercalate_lines (t : Text) : t = ['\n'].intercalate t.lines ∨
    t = ['\n'].intercalate t.lines ++ ['\n'] := by
  have joined : ['\n'].intercalate (t.splitOn '\n') = t := List.intercalate_splitOn '\n'
  rw [lines_eq_splitOn]
  by_cases ends : (t.splitOn '\n').getLast? = some []
  · obtain ⟨init, parts⟩ := List.getLast?_eq_some_iff.mp ends
    rw [withoutEmptyEnd, if_pos ends, parts, List.dropLast_concat]
    rw [parts] at joined
    cases init with
    | nil =>
      left
      exact joined.symm
    | cons first more =>
      right
      rw [← intercalate_concat_nil]
      exact joined.symm
  · left
    rw [withoutEmptyEnd, if_neg ends, joined]

section Blanks
variable {t blanks : Text}

theorem trimStart_append (h : blanks.isAllBlank = true) (t : Text) :
    (blanks ++ t).trimStart = t.trimStart :=
  List.dropWhile_append_of_pos (List.all_eq_true.mp h)

theorem trimEnd_append (h : blanks.isAllBlank = true) (t : Text) :
    (t ++ blanks).trimEnd = t.trimEnd := by
  have blank : ∀ c ∈ blanks.reverse, isBlank c = true := by
    intro c hc
    exact List.all_eq_true.mp h c (List.mem_reverse.mp hc)
  rw [trimEnd, List.reverse_append, List.dropWhile_append_of_pos blank, trimEnd]

theorem trimStart_eq_self (h : ∀ c ∈ t.head?, isBlank c = false) : t.trimStart = t := by
  cases t with
  | nil => rfl
  | cons c t => rw [trimStart, List.dropWhile_cons_of_neg (by simp [h c rfl])]

theorem trimEnd_eq_self (h : ∀ c ∈ t.getLast?, isBlank c = false) : t.trimEnd = t := by
  have same := trimStart_eq_self (t := t.reverse) (by rwa [List.head?_reverse])
  rw [trimStart] at same
  rw [trimEnd, same, List.reverse_reverse]

/-- What is trimmed away at the end of a text is blank, and what is left does not end in a blank. -/
theorem exists_trimEnd (t : Text) : ∃ blanks, t = t.trimEnd ++ blanks ∧ blanks.isAllBlank = true ∧
    ∀ c ∈ t.trimEnd.getLast?, isBlank c = false := by
  refine ⟨t.rtakeWhile isBlank, List.rdropWhile_append_rtakeWhile.symm, ?_, ?_⟩
  · exact List.all_eq_true.mpr fun c hc => List.mem_rtakeWhile_imp hc
  · intro c hc
    obtain ⟨nonempty, rfl⟩ := List.mem_getLast?_eq_getLast hc
    have dark := List.rdropWhile_last_not isBlank t nonempty
    exact (Bool.not_eq_true _).mp dark

end Blanks

/-- A text in three parts: the blanks at its start, those at its end, and what is between them. -/
structure Trimmed (t before kept after : Text) : Prop where
  parts : t = before ++ kept ++ after
  leading : before.isAllBlank = true
  trailing : after.isAllBlank = true
  first : ∀ c ∈ kept.head?, isBlank c = false
  last : ∀ c ∈ kept.getLast?, isBlank c = false

theorem exists_trimmed (t : Text) : ∃ before kept after, Trimmed t before kept after := by
  have start (c : Char) (hc : c ∈ t.trimStart.head?) : isBlank c = false := by
    have first := List.head?_dropWhile_not isBlank t
    rw [← trimStart, Option.mem_def.mp hc] at first
    exact first
  obtain ⟨after, whole, trailing, last⟩ := exists_trimEnd t.trimStart
  refine ⟨t.takeWhile isBlank, t.trimStart.trimEnd, after, ?_, List.all_takeWhile, trailing, ?_, last⟩
  · rw [List.append_assoc, ← whole, trimStart, List.takeWhile_append_dropWhile]
  · intro c hc
    apply start
    rw [whole, List.head?_append, Option.mem_def.mp hc]
    rfl

namespace Trimmed

variable {t before kept after : Text} (trimmed : Trimmed t before kept after)
include trimmed

theorem isAllBlank_iff : t.isAllBlank = true ↔ kept = [] := by
  obtain ⟨rfl, leading, trailing, first, _⟩ := trimmed
  constructor
  · intro blank
    cases kept with
    | nil => rfl
    | cons c kept =>
      have here : isBlank c = true := List.all_eq_true.mp blank c (by simp)
      rw [first c rfl] at here
      cases here
  · rintro rfl
    rw [isAllBlank] at leading trailing ⊢
    simp [leading, trailing]

theorem takeWhile_eq (filled : kept ≠ []) : t.takeWhile isBlank = before := by
  obtain ⟨rfl, leading, _, first, _⟩ := trimmed
  obtain ⟨c, rest, rfl⟩ := List.exists_cons_of_ne_nil filled
  rw [List.append_assoc, List.takeWhile_append_of_pos (List.all_eq_true.mp leading),
    List.cons_append, List.takeWhile_cons_of_neg (by simp [first c rfl]), List.append_nil]

theorem trimEnd_eq (filled : kept ≠ []) : t.trimEnd = before ++ kept := by
  obtain ⟨rfl, _, trailing, _, last⟩ := trimmed
  rw [trimEnd_append trailing]
  apply trimEnd_eq_self
  rwa [List.getLast?_append_of_ne_nil _ filled]

theorem trim_eq : t.trim = kept := by
  obtain ⟨rfl, leading, trailing, first, last⟩ := trimmed
  rw [trim, List.append_assoc, trimStart_append leading]
  cases kept with
  | nil =>
    rw [List.nil_append, trimStart, List.dropWhile_eq_nil_iff.mpr (List.all_eq_true.mp trailing)]
    rfl
  | cons c rest =>
    rw [trimStart_eq_self (by simpa using first), trimEnd_append trailing, trimEnd_eq_self last]

end Trimmed

end Text

namespace DefinitionText

/-- In this column a semicolon starts a comment: the string delimiters before it make pairs. Where
the delimiter is the semicolon itself, none does. -/
def OpensComment (d : Char) (t : Text) (i : Nat) : Prop :=
  t[i]? = some ';' ∧ d ≠ ';' ∧ Even ((t.take i).count d)

instance (d : Char) (t : Text) (i : Nat) : Decidable (OpensComment d t i) :=
  inferInstanceAs (Decidable (_ ∧ _ ∧ _))

/-- The first column in which a comment starts, or else the end of the line. -/
def commentColumn (d : Char) (line : Text) : Nat :=
  ((List.range line.length).find? fun i => OpensComment d line i).getD line.length

/-- What stands before the comment. -/
def content (d : Char) (line : Text) : Text := line.take (commentColumn d line)

section Content
variable {d : Char}

theorem commentColumn_eq {line : Text} {n : Nat} (first : ∀ i < n, ¬OpensComment d line i)
    (ends : n = line.length ∨ OpensComment d line n) : commentColumn d line = n := by
  rcases ends with rfl | opens
  · have none : (List.range line.length).find? (fun i => OpensComment d line i) = none := by
      rw [List.find?_range_eq_none]
      simpa using first
    rw [commentColumn, none]
    rfl
  · have inside := (List.getElem?_eq_some_iff.mp opens.1).1
    have found : (List.range line.length).find? (fun i => OpensComment d line i) = some n := by
      rw [List.find?_range_eq_some]
      exact ⟨decide_eq_true opens, List.mem_range.mpr inside, by simpa using first⟩
    rw [commentColumn, found]
    rfl

/-- No comment starts in what has been passed, and a string is open there if the delimiters met so
far make no pairs. -/
theorem append_uncommented (before line : Text)
    (passed : ∀ i < before.length, ¬OpensComment d (before ++ line) i) :
    before ++ uncommented (some d) (!decide (Even (before.count d))) line =
      content d (before ++ line) := by
  induction line generalizing before with
  | nil =>
    rw [content, commentColumn_eq passed (.inl (by simp)), uncommented, List.take_left,
      List.append_nil]
  | cons c rest ih =>
    have here : (before ++ c :: rest)[before.length]? = some c := by simp
    have counted : (before ++ c :: rest).take before.length = before := List.take_left
    -- One more character is passed.
    have next (plain : ¬OpensComment d (before ++ c :: rest) before.length) :
        before ++ c :: uncommented (some d) (!decide (Even ((before ++ [c]).count d))) rest =
          content d (before ++ c :: rest) := by
      have whole : before ++ c :: rest = before ++ [c] ++ rest := by simp
      rw [whole, ← ih (before ++ [c])]
      · simp
      · intro i hi
        rw [← whole]
        rw [List.length_append, List.length_singleton] at hi
        rcases Nat.lt_succ_iff_lt_or_eq.mp hi with hi | rfl
        · exact passed i hi
        · exact plain
    rw [uncommented]
    by_cases delimiter : c = d
    · subst delimiter
      have turned :
          (!decide (Even ((before ++ [c]).count c))) = decide (Even (before.count c)) := by
        simp only [List.count_append, List.count_singleton_self, Nat.even_add_one, decide_not,
          Bool.not_not]
      rw [if_pos rfl, ← next, turned, Bool.not_not]
      · rintro ⟨semicolon, other, _⟩
        exact other (Option.some.inj (here.symm.trans semicolon))
    have uncounted : (before ++ [c]).count d = before.count d := by
      simp [delimiter]
    rw [if_neg (by simpa using delimiter)]
    by_cases paired : Even (before.count d)
    · by_cases semicolon : c = ';'
      · subst semicolon
        have opens : OpensComment d (before ++ ';' :: rest) before.length :=
          ⟨here, Ne.symm delimiter, by rwa [counted]⟩
        rw [content, commentColumn_eq passed (.inr opens), counted]
        simp [paired]
      · rw [if_neg (fun h => semicolon h.1), ← next, uncounted]
        exact fun opens => semicolon (Option.some.inj (here.symm.trans opens.1))
    · rw [if_neg (by simp [paired]), ← next, uncounted]
      rintro ⟨_, _, even⟩
      rw [counted] at even
      exact paired even

/-- What is left of a line is what stands before its comment. -/
theorem uncommented_eq_content (d : Char) (line : Text) :
    uncommented (some d) false line = content d line := by
  simpa using append_uncommented (d := d) [] line (by simp)

end Content

theorem content_append (d : Char) (line : Text) :
    content d line ++ line.drop (commentColumn d line) = line :=
  List.take_append_drop _ _

/-- The entry has the columns of its line that are left without the comment and the blanks at both
ends, and something is left. -/
structure Selects (d : Char) (whole e : Excerpt) : Prop where
  path : e.path = whole.path
  lineNumber : e.lineNumber = whole.lineNumber
  line : e.line = whole.line
  wellFormed : e.WellFormed
  start : e.start = ((content d whole.line).takeWhile Text.isBlank).length
  text : e.text = (content d whole.line).trim
  filled : e.text ≠ []
  first : ∀ c ∈ e.text.head?, Text.isBlank c = false
  last : ∀ c ∈ e.text.getLast?, Text.isBlank c = false

theorem definition?_eq_none {d : Char} {whole : Excerpt}
    (blank : (content d whole.line).isAllBlank = true) : definition? (some d) whole = none := by
  have ends : (content d whole.line).trimEnd = [] := by
    have same := Text.trimEnd_append blank []
    simpa [Text.trimEnd] using same
  rw [definition?, span?, uncommented_eq_content, ends]
  rfl

theorem selects_definition {d : Char} {whole : Excerpt}
    (filled : (content d whole.line).isAllBlank = false) :
    ∃ e, definition? (some d) whole = some e ∧ Selects d whole e := by
  obtain ⟨before, kept, after, trimmed⟩ := Text.exists_trimmed (content d whole.line)
  have nonempty : kept ≠ [] := by
    intro empty
    rw [trimmed.isAllBlank_iff.mpr empty] at filled
    cases filled
  have spelled : whole.line =
      before ++ kept ++ (after ++ whole.line.drop (commentColumn d whole.line)) := by
    rw [← List.append_assoc, ← trimmed.parts, content_append]
  have room := congrArg List.length spelled
  simp only [List.length_append] at room
  have columns : span? (some d) whole.line =
      some (before.length, before.length + kept.length) := by
    have shortened : Text.Trimmed (before ++ kept) before kept [] :=
      ⟨(List.append_nil _).symm, trimmed.leading, rfl, trimmed.first, trimmed.last⟩
    have something : (before ++ kept).isEmpty = false := by simp [nonempty]
    simp only [span?, uncommented_eq_content, trimmed.trimEnd_eq nonempty, something,
      shortened.takeWhile_eq nonempty, List.length_append, Bool.false_eq_true, if_false]
  refine ⟨whole.withSpan before.length (before.length + kept.length : Nat), ?_, ?_⟩
  · rw [definition?, columns]
    rfl
  have wf : (whole.withSpan before.length (before.length + kept.length : Nat)).WellFormed := by
    simp only [Excerpt.WellFormed, Excerpt.withSpan]
    omega
  have text : (whole.withSpan before.length (before.length + kept.length : Nat)).text = kept := by
    rw [Excerpt.text_eq wf]
    simp only [Excerpt.withSpan, Int.toNat_natCast]
    rw [spelled, List.append_assoc, List.drop_left, Nat.add_sub_cancel_left, List.take_left]
  refine ⟨rfl, rfl, rfl, wf, ?_, ?_, ?_, ?_, ?_⟩
  · rw [trimmed.takeWhile_eq nonempty]
    rfl
  · rw [text, trimmed.trim_eq]
  · rwa [text]
  · rw [text]
    exact trimmed.first
  · rw [text]
    exact trimmed.last

/-- The entries are read off the lines on which something counts. -/
theorem forall₂_selects (d : Char) (lines : List Excerpt) :
    List.Forall₂ (Selects d) (lines.filter fun e => !(content d e.line).isAllBlank)
      (lines.filterMap (definition? (some d))) := by
  induction lines with
  | nil => exact .nil
  | cons whole rest ih =>
    cases counts : (content d whole.line).isAllBlank with
    | true =>
      rw [List.filter_cons_of_neg (by simp [counts]),
        List.filterMap_cons_none (definition?_eq_none counts)]
      exact ih
    | false =>
      obtain ⟨e, defined, selects⟩ := selects_definition counts
      rw [List.filter_cons_of_pos (by simp [counts]), List.filterMap_cons_some defined]
      exact .cons selects ih

/-- Every entry is read off one of the lines. -/
theorem selects_of_mem_entries {d : Char} {path : String} {lines : List Text} {e : Excerpt}
    (h : e ∈ entries (some d) path lines) : ∃ whole ∈ numbered path lines, Selects d whole e := by
  obtain ⟨whole, known, found⟩ := List.mem_filterMap.mp h
  refine ⟨whole, known, ?_⟩
  cases counts : (content d whole.line).isAllBlank with
  | true =>
    rw [definition?_eq_none counts] at found
    cases found
  | false =>
    obtain ⟨e', defined, selects⟩ := selects_definition counts
    rw [defined] at found
    cases found
    exact selects

theorem map_line_numbered (path : String) (lines : List Text) :
    (numbered path lines).map Excerpt.line = lines := by
  rw [numbered, List.map_map]
  exact List.zipIdx_map_fst 0 lines

theorem getElem?_numbered {path : String} {lines : List Text} {i : Nat} {e : Excerpt}
    (h : (numbered path lines)[i]? = some e) : e = .ofLine path (some (i + 1)) e.line := by
  rw [numbered, List.getElem?_map, List.getElem?_zipIdx, Option.map_map] at h
  obtain ⟨line, _, rfl⟩ := Option.map_eq_some_iff.mp h
  simp [Excerpt.ofLine]

/-- The lines of a text are its pieces between newlines, but for an empty last one; they are
numbered from one and, joined again, are the text but for a newline at its end. Its entries are what
counts of the lines on which anything does. -/
theorem entries_of_lines (d : Char) (path : String) (t : Text) :
    let lines := numbered path t.lines
    lines.map Excerpt.line = Text.withoutEmptyEnd (t.splitOn '\n') ∧
    (∀ (i : Nat) (e : Excerpt), lines[i]? = some e → e = .ofLine path (some (i + 1)) e.line) ∧
    (t = ['\n'].intercalate (lines.map Excerpt.line) ∨
      t = ['\n'].intercalate (lines.map Excerpt.line) ++ ['\n']) ∧
    List.Forall₂ (Selects d) (lines.filter fun e => !(content d e.line).isAllBlank)
      (entries (some d) path t.lines) := by
  intro lines
  rw [map_line_numbered]
  exact ⟨t.lines_eq_splitOn, fun i e => getElem?_numbered, t.intercalate_lines,
    forall₂_selects d lines⟩

end DefinitionText

end AsmOperand
