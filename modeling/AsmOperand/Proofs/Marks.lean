import AsmOperand.Log.Layout
import AsmOperand.Proofs.Entries
import Mathlib.Data.List.GetD

/-!
# What the row of marks shows

A message that points into a line is always shown in three rows. Column by column the last of them
tells which spans stand above it: the main one wherever it is, and another one of the same line only
where the main one is not. What lies behind the line is drawn in the one column that follows it, and
an empty span takes a column as well, so that the main span is never without a mark.

Spans that start before their line are left out here.
-/

namespace AsmOperand

/-- The excerpts that a place points at, the main one first. -/
def Place.pointsAt : Place → List Excerpt
  | .nowhere => []
  | .file _ => []
  | .excerpt e => [e]
  | .excerpts es => es.filterMap id

namespace Text

/-- If spaces are its only blanks, a text goes on with spaces where it has been trimmed. -/
theorem getD_trimEnd {t : Text} (spaces : ∀ c ∈ t, isBlank c = true → c = ' ') (i : Nat) :
    t.trimEnd.getD i ' ' = t.getD i ' ' := by
  obtain ⟨blanks, whole, blank, _⟩ := exists_trimEnd t
  have held : ∀ c ∈ blanks, c ∈ t := by
    intro c hc
    rw [whole]
    exact List.mem_append_right _ hc
  by_cases kept : i < t.trimEnd.length
  · conv_rhs => rw [whole]
    rw [List.getD_append _ _ _ _ kept]
  · have trimmed : t.trimEnd.length ≤ i := by omega
    conv_rhs => rw [whole]
    rw [List.getD_append_right _ _ _ _ trimmed, List.getD_eq_default _ _ trimmed]
    by_cases inside : i - t.trimEnd.length < blanks.length
    · have known := List.getElem_mem inside
      rw [List.getD_eq_getElem _ _ inside]
      exact (spaces _ (held _ known) (List.all_eq_true.mp blank _ known)).symm
    · rw [List.getD_eq_default _ _ (by omega)]

end Text

namespace Excerpt

/-- Where a message about the excerpt is, and the message. -/
def heading (e : Excerpt) (message : String) : String :=
  match e.lineNumber with
  | none => s!"{e.path}: {message}"
  | some n => s!"{e.path}:{n}: {message}"

/-- The excerpt stands above column `c` of the row, its line being `n` columns long. -/
def StandsAbove (n : Nat) (e : Excerpt) (c : Nat) : Prop :=
  min e.start n ≤ c ∧ c < max (min e.stop (n + 1)) (min e.start n + 1)

instance (n : Nat) (e : Excerpt) (c : Nat) : Decidable (e.StandsAbove n c) := by
  unfold StandsAbove
  infer_instance

/-- Every excerpt has a column, and it is on the row. -/
theorem standsAbove_first {e : Excerpt} (placed : 0 ≤ e.start) (n : Nat) :
    (min e.start n).toNat ≤ n ∧ e.StandsAbove n (min e.start n).toNat := by
  simp only [StandsAbove]
  omega

end Excerpt

namespace MarkRow

/-- The mark in column `c` of the row under the line of `main`. -/
def markAt (main : Excerpt) (others : List Excerpt) (c : Nat) : Char :=
  if main.StandsAbove main.line.length c then '^'
  else if ∃ e ∈ others, e.line = main.line ∧ e.StandsAbove main.line.length c then '~'
  else ' '

/-- The row has the right mark in every column, blanks behind its end being left out. -/
structure Marks (main : Excerpt) (others : List Excerpt) (row : Text) : Prop where
  columns : ∀ c ≤ main.line.length, row.getD c ' ' = markAt main others c
  ending : ∀ m ∈ row.getLast?, m ≠ ' '
  length_le : row.length ≤ main.line.length + 1
  visible : row[(min main.start main.line.length).toNat]? = some '^'

theorem covers_iff {e : Excerpt} (placed : 0 ≤ e.start) {n c : Nat} (onRow : c ≤ n) :
    covers n e.start e.stop c = true ↔ e.StandsAbove n c := by
  let first : Int := min e.start n
  let last : Int := max (min e.stop (n + 1)) (first + 1)
  let back : Int := (c : Int) - (n + 1)
  have tests : covers n e.start e.stop c =
      ((decide (first ≤ c) && decide ((c : Int) < last)) ||
        (decide (first ≤ back) && decide (back < last))) := rfl
  -- Counted from the end of the row, a column lies before every span.
  have before : ¬first ≤ back := by omega
  simp only [tests, decide_eq_false before, Bool.false_and, Bool.or_false, Bool.and_eq_true,
    decide_eq_true_eq, Excerpt.StandsAbove, first, last]

theorem getElem?_paint (mark : Char) (n : Nat) (row : Text) (span : Int × Int) (c : Nat) :
    (paint mark n row span)[c]? =
      row[c]?.map fun old => if covers n span.1 span.2 c then mark else old := by
  rw [paint, List.getElem?_mapIdx]

/-- Drawn over one another, the spans mark what any of them covers. -/
theorem getElem?_below (spans : List (Int × Int)) {n c : Nat} (onRow : c ≤ n) :
    (spans.foldr (fun span row => paint '~' n row span) (List.replicate (n + 1) ' '))[c]? =
      some (if spans.any fun span => covers n span.1 span.2 c then '~' else ' ') := by
  induction spans with
  | nil =>
    have inside : c < n + 1 := by omega
    simp [inside]
  | cons span rest ih =>
    rw [List.foldr_cons, getElem?_paint, ih, Option.map_some, List.any_cons]
    cases covers n span.1 span.2 c with
    | true => rfl
    | false => rfl

/-- The row before the blanks at its end are left out. -/
def fullRow (main : Excerpt) (others : List Excerpt) : Text :=
  let n := main.line.length
  let spans := (others.filter fun e => e.line = main.line).map Record.span
  paint '^' n (spans.foldr (fun span row => paint '~' n row span) (List.replicate (n + 1) ' '))
    (Record.span main)

section Row
variable {main : Excerpt} {others : List Excerpt} (placed : ∀ e ∈ main :: others, 0 ≤ e.start)
include placed

theorem getElem?_fullRow {c : Nat} (onRow : c ≤ main.line.length) :
    (fullRow main others)[c]? = some (markAt main others c) := by
  obtain ⟨first, more⟩ := List.forall_mem_cons.mp placed
  have below : (((others.filter fun e => e.line = main.line).map Record.span).any fun span =>
      covers main.line.length span.1 span.2 c) = true ↔
        ∃ e ∈ others, e.line = main.line ∧ e.StandsAbove main.line.length c := by
    simp only [List.any_map, List.any_filter, List.any_eq_true, Bool.and_eq_true,
      decide_eq_true_eq, Function.comp_apply]
    refine exists_congr fun e => and_congr_right fun known => and_congr_right fun _ => ?_
    exact covers_iff (more e known) onRow
  rw [fullRow, getElem?_paint, getElem?_below _ onRow, Option.map_some, markAt]
  simp only [below]
  congr 1
  exact if_congr (covers_iff first onRow) rfl rfl

omit placed in
theorem length_fullRow (main : Excerpt) (others : List Excerpt) :
    (fullRow main others).length = main.line.length + 1 := by
  have below (n : Nat) (spans : List (Int × Int)) :
      (spans.foldr (fun span row => paint '~' n row span) (List.replicate (n + 1) ' ')).length =
        n + 1 := by
    induction spans with
    | nil => exact List.length_replicate
    | cons span rest ih => rw [List.foldr_cons, paint, List.length_mapIdx, ih]
  rw [fullRow, paint, List.length_mapIdx, below]

theorem eq_space_of_mem_fullRow : ∀ m ∈ fullRow main others, Text.isBlank m = true → m = ' ' := by
  intro m known blank
  obtain ⟨c, inside, rfl⟩ := List.getElem_of_mem known
  have size := length_fullRow main others
  have mark := getElem?_fullRow placed (c := c) (by omega)
  rw [List.getElem?_eq_getElem inside, Option.some.injEq] at mark
  rw [mark] at blank ⊢
  rw [markAt] at blank ⊢
  split at blank
  · cases blank
  · rename_i above
    rw [if_neg above]
    split at blank
    · cases blank
    · rename_i none
      rw [if_neg none]

theorem marks_trimEnd : Marks main others (fullRow main others).trimEnd := by
  have size := length_fullRow main others
  have columns : ∀ c ≤ main.line.length,
      (fullRow main others).trimEnd.getD c ' ' = markAt main others c := by
    intro c onRow
    rw [Text.getD_trimEnd (eq_space_of_mem_fullRow placed), List.getD_eq_getElem?_getD,
      getElem?_fullRow placed onRow, Option.getD_some]
  obtain ⟨blanks, whole, _, light⟩ := Text.exists_trimEnd (fullRow main others)
  refine ⟨columns, ?_, ?_, ?_⟩
  · intro m last
    have dark := light m last
    rintro rfl
    cases dark
  · have sizes := congrArg List.length whole
    rw [List.length_append] at sizes
    omega
  · obtain ⟨first, _⟩ := List.forall_mem_cons.mp placed
    obtain ⟨onRow, above⟩ := Excerpt.standsAbove_first first main.line.length
    have mark := columns _ onRow
    rw [markAt, if_pos above, List.getD_eq_getElem?_getD] at mark
    cases here : (fullRow main others).trimEnd[(min main.start main.line.length).toNat]? with
    | none =>
      rw [here] at mark
      cases mark
    | some m =>
      rw [here, Option.getD_some] at mark
      rw [mark]

/-- No span lies before the row, so there is one. -/
theorem ofSpans?_eq : ofSpans? main.line.length (Record.span main)
    ((others.filter fun e => e.line = main.line).map Record.span) =
      some (fullRow main others).trimEnd := by
  have drawable {e : Excerpt} (known : e ∈ main :: others) :
      isOnRow main.line.length e.start = true := by
    have start := placed e known
    exact decide_eq_true (by omega)
  rw [ofSpans?, if_pos]
  · rfl
  · rw [List.all_cons, List.all_map, Bool.and_eq_true, List.all_eq_true]
    refine ⟨drawable List.mem_cons_self, ?_⟩
    intro e he
    exact drawable (List.mem_cons_of_mem _ (List.mem_of_mem_filter he))

end Row

end MarkRow

/-- A message that points into a line is shown: where it is and what it says, the line, and the row
of marks. -/
theorem Record.render?_marks (level : Level) (text : String) {place : Place} {main : Excerpt}
    {others : List Excerpt} (points : place.pointsAt = main :: others)
    (placed : ∀ e ∈ main :: others, 0 ≤ e.start) : ∃ row, MarkRow.Marks main others row ∧
      (Record.message level text place).render? = some ("\n".intercalate
        [main.heading (opening level ++ text), String.ofList main.line, String.ofList row]) := by
  have marks := MarkRow.marks_trimEnd placed
  refine ⟨_, marks, ?_⟩
  have shown : placed? (opening level ++ text) place =
      picture? (opening level ++ text) main others := by
    cases place with
    | nowhere => cases points
    | file path => cases points
    | excerpt e =>
      cases points
      rfl
    | excerpts es =>
      simp only [Place.pointsAt] at points
      simp only [placed?, points]
  have nonempty : (MarkRow.fullRow main others).trimEnd.isEmpty = false := by
    rw [List.isEmpty_eq_false_iff]
    intro none
    have visible := marks.visible
    rw [none] at visible
    cases visible
  rw [render?, shown, picture?, MarkRow.ofSpans?_eq placed, Option.map_some, nonempty]
  simp only [Bool.false_eq_true, if_false, List.cons_append, List.nil_append]
  rfl

/-- The missing place and the one on another line leave no mark; behind the line there is one more
column, and the main span is drawn over the other one. -/
theorem Record.render?_marks_overlap :
    let line := "A+'B".toList
    let main : Excerpt := ⟨"defs.sym", some 7, line, 2, 9⟩
    let wide : Excerpt := ⟨"defs.sym", some 7, line, 1, 3⟩
    let elsewhere : Excerpt := ⟨"defs.sym", some 8, "B".toList, 0, 1⟩
    let place : Place := .excerpts [none, some main, some elsewhere, none, some wide]
    place.pointsAt = [main, elsewhere, wide] ∧ (∀ e ∈ [main, elsewhere, wide], 0 ≤ e.start) ∧
      ∃ row, MarkRow.Marks main [elsewhere, wide] row ∧
        (List.range 5).map (fun c => row.getD c ' ') = " ~^^^".toList ∧
        (Record.message .error "bad" place).render? = some ("\n".intercalate
          ["defs.sym:7: ERROR: bad", "A+'B", String.ofList row]) := by
  intro line main wide elsewhere place
  have heading : main.heading (opening .error ++ "bad") = "defs.sym:7: ERROR: bad" := by
    decide +kernel
  have points : place.pointsAt = [main, elsewhere, wide] := rfl
  have placed : ∀ e ∈ [main, elsewhere, wide], 0 ≤ e.start := by decide
  obtain ⟨row, marks, shown⟩ := render?_marks .error "bad" points placed
  have columns : (List.range 5).map (fun c => row.getD c ' ') =
      (List.range 5).map (MarkRow.markAt main [elsewhere, wide]) := by
    apply List.map_congr_left
    intro c onRow
    have size : main.line.length = 4 := rfl
    have inside := List.mem_range.mp onRow
    exact marks.columns c (by omega)
  rw [heading] at shown
  exact ⟨points, placed, row, marks, columns.trans (by decide), shown⟩

end AsmOperand
