import AsmOperand.Proofs.Entries
import AsmOperand.Proofs.Places

/-!
# Comments behind definitions

Behind a line on which the string delimiters make pairs, a comment makes no difference but for
places. They need not make pairs: a delimiter may stand within a name, and then a string is taken to
be open where the comment should start. What becomes of such lines is not looked at here; there is
one that stores its symbol alone and fails with a comment.
-/

namespace AsmOperand

theorem Text.lines_of_notMem {t : Text} (nonempty : t ≠ []) (one : '\n' ∉ t) : t.lines = [t] := by
  induction t with
  | nil => exact absurd rfl nonempty
  | cons c rest ih =>
    obtain ⟨other, one⟩ := not_or.mp (mt List.mem_cons.mpr one)
    rw [lines, if_neg (Ne.symm other)]
    cases rest with
    | nil => rfl
    | cons next more => rw [ih (List.cons_ne_nil next more) one]

namespace DefinitionText

variable {d : Char}

/-- A comment starts in the column before which what counts ends, unless all of the line counts. -/
theorem opensComment_commentColumn {line : Text} (inside : commentColumn d line < line.length) :
    OpensComment d line (commentColumn d line) := by
  rw [commentColumn] at inside ⊢
  cases found : (List.range line.length).find? fun i => OpensComment d line i with
  | none =>
    rw [found] at inside
    exact absurd inside (Nat.lt_irrefl _)
  | some i =>
    have opens := List.find?_some found
    exact of_decide_eq_true opens

theorem content_of_notMem {line : Text} (plain : ';' ∉ line) : content d line = line := by
  have first (i : Nat) (_ : i < line.length) : ¬OpensComment d line i :=
    fun opens => plain (List.mem_of_getElem? opens.1)
  rw [content, commentColumn_eq first (.inl rfl), List.take_length]

/-- What counts ends before a semicolon exactly if the delimiters before it make pairs. -/
theorem content_comment_iff {line : Text} (plain : ';' ∉ line) (other : d ≠ ';')
    (comment : Text) : content d (line ++ ';' :: comment) = line ↔ Even (line.count d) := by
  have first (i : Nat) (hi : i < line.length) : ¬OpensComment d (line ++ ';' :: comment) i := by
    intro opens
    have here := opens.1
    rw [List.getElem?_append_left hi] at here
    exact plain (List.mem_of_getElem? here)
  constructor
  · intro same
    have column : commentColumn d (line ++ ';' :: comment) = line.length := by
      have length := congrArg List.length same
      rw [content, List.length_take, List.length_append, List.length_cons] at length
      omega
    have counted := (opensComment_commentColumn (by rw [column]; simp)).2.2
    rwa [column, List.take_left] at counted
  · intro paired
    have opens : OpensComment d (line ++ ';' :: comment) line.length :=
      ⟨by simp, other, by rwa [List.take_left]⟩
    rw [content, commentColumn_eq first (.inr opens), List.take_left]

/-- There is at most one definition in a text of one line. -/
theorem entries_of_notMem {t : Text} (one : '\n' ∉ t) (path : String) :
    entries (some d) path t.lines = (definition? (some d) (.ofLine path (some 1) t)).toList := by
  by_cases empty : t = []
  · subst empty
    rw [definition?_eq_none rfl]
    rfl
  · have numbers : numbered path [t] = [.ofLine path (some 1) t] := rfl
    rw [Text.lines_of_notMem empty one, entries, numbers, List.filterMap_cons, List.filterMap_nil]
    cases definition? (some d) (.ofLine path (some 1) t) with
    | none => rfl
    | some e => rfl

/-- Lines are alike if what counts of them is. -/
theorem forall₂_sameText {t t' : Text} (one : '\n' ∉ t) (one' : '\n' ∉ t')
    (same : content d t' = content d t) (path : String) :
    List.Forall₂ Job.SameText (entries (some d) path t.lines) (entries (some d) path t'.lines) := by
  rw [entries_of_notMem one, entries_of_notMem one']
  cases counts : (content d t).isAllBlank with
  | true =>
    rw [definition?_eq_none counts, definition?_eq_none (same ▸ counts)]
    exact .nil
  | false =>
    have counts' : (content d t').isAllBlank = false := same ▸ counts
    obtain ⟨e, defined, selects⟩ := @selects_definition d (.ofLine path (some 1) t) counts
    obtain ⟨e', defined', selects'⟩ := @selects_definition d (.ofLine path (some 1) t') counts'
    rw [defined, defined']
    have text : e'.text = e.text := by
      rw [selects.text, selects'.text]
      exact congrArg Text.trim same
    exact .cons ⟨selects.wellFormed, selects'.wellFormed, text⟩ .nil

end DefinitionText

/-- Places do not count for how many errors there are. -/
theorem Desk.adds_nil_of_unplaced {d later later' : Desk} (same : later'.unplaced = later.unplaced)
    (grows : d.Grows later') {name : Ledger.Name}
    (quiet : (d.ledger name).Adds [] (later.ledger name)) :
    (d.ledger name).Adds [] (later'.ledger name) := by
  obtain ⟨more, adds⟩ := grows name
  have ledgers : (later'.ledger name).unplaced = (later.ledger name).unplaced := by
    rw [← ledger_unplaced, ← ledger_unplaced, same]
  have errors : (later'.ledger name).tally.errors = (later.ledger name).tally.errors :=
    congrArg (fun l => l.tally.errors) ledgers
  rw [adds.errors, quiet.errors] at errors
  have none : more = [] := List.eq_nil_of_length_eq_zero (by simpa using errors)
  rwa [none] at adds

namespace Job

/-- A comment is found exactly if the string delimiters before it make pairs, and then it makes no
difference but for places. If the line brings up no error, it brings up none with the comment, and
in the end the table has the same names with the same values. -/
theorem defineAll_comment (j : Job) (path : String) {line comment : Text} (plain : ';' ∉ line)
    (one : '\n' ∉ line) (one' : '\n' ∉ comment) (other : j.settings.delimiter ≠ ';')
    (w : Workplace) :
    let d := j.settings.delimiter
    let read (t : Text) := (j.defineAll (DefinitionText.entries (some d) path t.lines)).run w
    (DefinitionText.uncommented (some d) false (line ++ ';' :: comment) = line ↔
      Even (line.count d)) ∧
    (Even (line.count d) →
      unplacedEnd (read (line ++ ';' :: comment)) = unplacedEnd (read line) ∧
      ∀ later, read line = .ok () later →
        (∀ name, (w.desk.ledger name).Adds [] (later.desk.ledger name)) →
        ∃ later', read (line ++ ';' :: comment) = .ok () later' ∧
          (∀ name, (w.desk.ledger name).Adds [] (later'.desk.ledger name)) ∧
          later'.scope.inner.bindings = later.scope.inner.bindings ∧
          (∀ name, later'.scope.lookup name = later.scope.lookup name) ∧
          later'.reads = later.reads) := by
  intro d read
  have ends := DefinitionText.content_comment_iff plain other comment
  rw [DefinitionText.uncommented_eq_content]
  refine ⟨ends, ?_⟩
  intro paired
  have content : DefinitionText.content d (line ++ ';' :: comment) =
      DefinitionText.content d line := by
    rw [ends.mpr paired, DefinitionText.content_of_notMem plain]
  have newline : '\n' ∉ line ++ ';' :: comment := by simp [one, one']
  have alike := j.defineAll_matches (DefinitionText.forall₂_sameText one newline content path)
  refine ⟨alike w w rfl, ?_⟩
  intro later ran quiet
  obtain ⟨later', ran', same⟩ := alike.ok rfl ran
  obtain ⟨scopes, desks, reads⟩ := Workplace.unplaced_eq_iff.mp same
  have grows := (j.defineAll_grows _).of_ok ran'
  refine ⟨later', ran', ?_, ?_, ?_, reads⟩
  · intro name
    exact Desk.adds_nil_of_unplaced desks grows.desk (quiet name)
  · have tables := congrArg (fun s => s.inner.bindings) scopes
    simpa only [Scope.unplaced, Table.bindings_unplaced] using tables
  · intro name
    rw [← Scope.lookup_unplaced, scopes, Scope.lookup_unplaced]

/-- A name and two strings have pairs of delimiters, and the comment one more. -/
theorem defineAll_comment_paired :
    let j : Job := ⟨Settings.default, fun _ => 0, .a⟩
    let w : Workplace := { scope := ⟨⟨8, [⟨['B'], 1, none⟩]⟩, [], []⟩ }
    let line := "_A'B' 'AB'+B".toList
    let comment := " isn't it".toList
    let read (t : Text) := (j.defineAll (DefinitionText.entries (some '\'') "defs" t.lines)).run w
    ';' ∉ line ∧ '\n' ∉ line ∧ '\n' ∉ comment ∧ Even (line.count '\'') ∧
    ∃ later, read (line ++ ';' :: comment) = .ok () later ∧
      later.scope.inner.bindings = [(['B'], 1), ("_A'B'".toList, 16707)] ∧
      (w.desk.ledger .a).Adds [] (later.desk.ledger .a) := by
  intro j w line comment read
  have plain : ';' ∉ line := by decide
  have one : '\n' ∉ line := by decide
  have one' : '\n' ∉ comment := by decide
  have paired : Even (line.count '\'') := by decide
  obtain ⟨_, alike⟩ := defineAll_comment j "defs" plain one one' (by decide) w
  obtain ⟨_, clean⟩ := alike paired
  have computed : (match read line with
      | .ok _ later => some (later.scope.inner.bindings, later.desk.a, later.desk.b)
      | .error _ _ => none) = some ([(['B'], 1), ("_A'B'".toList, 16707)], {}, {}) := by
    decide +kernel
  cases ran : read line with
  | error f later =>
    rw [ran] at computed
    cases computed
  | ok _ later =>
    rw [ran] at computed
    simp only [Option.some.injEq, Prod.mk.injEq] at computed
    obtain ⟨bindings, first, second⟩ := computed
    have quiet (name : Ledger.Name) :
        (w.desk.ledger name).Adds [] (later.desk.ledger name) := by
      cases name with
      | a =>
        rw [show later.desk.ledger .a = {} from first]
        exact .refl _
      | b =>
        rw [show later.desk.ledger .b = {} from second]
        exact .refl _
    obtain ⟨later', ran', quiet', tables, _, _⟩ := clean later ran quiet
    exact ⟨plain, one, one', paired, later', ran', tables.trans bindings, quiet' .a⟩

/-- The name may hold a delimiter. Then the semicolon and what follows it are read as part of the
expression. -/
theorem defineAll_comment_unpaired :
    let j : Job := ⟨Settings.default, fun _ => 0, .a⟩
    let w : Workplace := { scope := ⟨⟨8, []⟩, [], []⟩ }
    let ends (t : Text) :=
      match (j.defineAll (DefinitionText.entries (some '\'') "defs" t.lines)).run w with
      | .ok _ later =>
        some (later.scope.inner.bindings, later.desk.a.reports.toList.map Report.problem)
      | .error _ _ => none
    ends "_X' 5".toList = some ([("_X'".toList, 5)], []) ∧
    ends "_X' 5; c".toList =
      some ([("_X'".toList, 0)], [.undefinedSymbol "5;".toList, .undefinedSymbol ['c']]) := by
  decide +kernel

end Job

end AsmOperand
