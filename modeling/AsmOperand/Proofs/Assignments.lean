import AsmOperand.Proofs.Commands
import AsmOperand.Proofs.Places

/-!
# Definitions given as options

An option is put together with a blank to a line, and the line is taken apart again at its first
blank. If no blank stands within the name, this gives back the name and the expression: either the
symbol that the option spells gets the value of its expression, or an error is entered and nothing
is stored. With a blank within the name the line is taken apart there, so what is stored then is not
what the option spells; only that its name is the beginning of the one in the option is said here.
-/

namespace AsmOperand

namespace Job

variable {j : Job}

/-- A blank in front of an operand makes no difference to its value. -/
theorem evaluate_space {e : Excerpt} (wf : e.WellFormed) {t : Text} (spells : e.text = ' ' :: t)
    {w later : Workplace} {v : Int} (ran : (j.evaluate e).run w = .ok v later) :
    ∃ s, (j.evaluate (.ofText t)).run w = .ok v s ∧ s.unplaced = later.unplaced := by
  obtain ⟨behind, rest⟩ : (e.tail 1).WellFormed ∧ (e.tail 1).text = t :=
    Excerpt.tail_of_append wf (t := [' ']) spells
  have skipped : (j.env w.scope).evaluate e = (j.env w.scope).evaluate (e.tail 1) := by
    rw [Env.evaluate_eq_descend _ wf, Env.evaluate_eq_descend _ behind,
      Env.descend_blanks wf 0 (t := [' ']) rfl spells]
    rfl
  have ran' : (j.evaluate (e.tail 1)).run w = .ok v later := by
    rw [← ran]
    show j.evaluate (e.tail 1) w = j.evaluate e w
    rw [evaluate, evaluate, skipped]
  have same : (Excerpt.ofText t).text = (e.tail 1).text := (Excerpt.text_ofText t).trans rest.symm
  exact (j.evaluate_matches behind (Excerpt.wellFormed_ofText t) same).ok rfl ran'

end Job

/-- What becomes of a definition that an option asks for, `v` being the value of its expression: it
is entered as an error and nothing is stored, or one new symbol is stored, under the beginning of
the name. If the name holds no blank, there is a reason for the error, and what is stored is the
symbol that the option spells. -/
inductive Assignment.Settles (a : Assignment) (j : Job) (v : Int) (w later : Workplace) : Prop where
  | refused (more : List Report) (nonempty : more ≠ [])
      (entered : (w.desk.ledger j.ledger).Adds more (later.desk.ledger j.ledger))
      (same : later.scope = w.scope)
      (reason : (∀ c ∈ a.name, Text.isBlank c = false) → a.expression.isAllBlank = true ∨
        isValidName (some j.settings.delimiter) a.name = false ∨
        ∃ old, w.scope.lookup a.name = .ok old)
  | stored (kept : Text) (u : Int) (source : Option Excerpt)
      (symbols : later.scope.inner.symbols = w.scope.inner.symbols ++ [⟨kept, u, source⟩])
      (fresh : ∀ old, w.scope.lookup kept ≠ .ok old)
      (beginning : kept <+: a.name)
      (spelled : (∀ c ∈ a.name, Text.isBlank c = false) →
        kept = a.name.take j.settings.symbolSize ∧ u = v)

namespace Assignment

variable (a : Assignment)

/-- The line is taken apart at its first blank. -/
theorem takeWhile_line : a.line.takeWhile (fun c => !Text.isBlank c) =
    a.name.takeWhile fun c => !Text.isBlank c := by
  have stops : (' ' :: a.expression).takeWhile (fun c => !Text.isBlank c) = [] :=
    List.takeWhile_cons_of_neg (by simp [Text.isBlank_space])
  rw [line, List.takeWhile_append, stops, List.append_nil]
  split
  · rename_i all
    exact ((List.takeWhile_prefix _).eq_of_length all).symm
  · rfl

theorem text_nameOf (path : String) : (Job.nameOf (.ofLine path none a.line)).text =
    a.name.takeWhile fun c => !Text.isBlank c := by
  rw [Job.text_nameOf (Excerpt.wellFormed_ofLine _ _ _), Excerpt.text_ofLine, takeWhile_line]

section Plain
variable {a} (plain : ∀ c ∈ a.name, Text.isBlank c = false)
include plain

theorem takeWhile_name : (a.name.takeWhile fun c => !Text.isBlank c) = a.name :=
  List.takeWhile_eq_self_iff.mpr (by simpa using plain)

/-- Without a blank in the name, the expression is what stands behind the blank of the line. -/
theorem text_expressionOf (path : String) :
    (Job.expressionOf (.ofLine path none a.line)).text = ' ' :: a.expression := by
  rw [Job.text_expressionOf (Excerpt.wellFormed_ofLine _ _ _), Excerpt.text_ofLine, line,
    List.dropWhile_append_of_pos (by simpa using plain),
    List.dropWhile_cons_of_neg (by simp [Text.isBlank_space])]

/-- What is wrong with a definition that is not accepted. -/
theorem reason_of_not_accepts {j : Job} {s : Scope} {path : String}
    (refuses : ¬j.Accepts s (.ofLine path none a.line)) :
    a.expression.isAllBlank = true ∨ isValidName (some j.settings.delimiter) a.name = false ∨
      ∃ old, s.lookup a.name = .ok old := by
  by_contra none
  obtain ⟨filled, none⟩ := not_or.mp none
  obtain ⟨valid, fresh⟩ := not_or.mp none
  refine refuses ⟨?_, ?_, ?_⟩
  · rw [text_expressionOf plain, Text.isAllBlank, List.all_cons, Text.isBlank_space, Bool.true_and]
    exact Bool.eq_false_of_not_eq_true filled
  · rw [text_nameOf, takeWhile_name plain]
    simpa using valid
  · rw [text_nameOf, takeWhile_name plain]
    exact not_exists.mp fresh

end Plain

theorem settles_define {j : Job} (pos : j.settings.width.Positive) {w : Workplace}
    (size : w.scope.inner.symbolSize = j.settings.symbolSize) (path : String) :
    ∃ later v s, (j.define (.ofLine path none a.line)).run w = .ok () later ∧
      (j.evaluate (.ofText a.expression)).run w = .ok v s ∧ a.Settles j v w later := by
  have wf := Excerpt.wellFormed_ofLine path none a.line
  have sized := Job.sized_of_symbolSize size
  have clips (name : Text) : w.scope.inner.clip name = name.take j.settings.symbolSize := by
    rw [Table.clip_eq_take sized, size, Int.toNat_natCast]
  obtain ⟨later, u, t, ran, evaluated, _, taken, left⟩ := Job.define_ok pos wf sized
  obtain ⟨v, s, alone, _⟩ := Job.evaluate_ok pos (Excerpt.wellFormed_ofText a.expression) w
  refine ⟨later, v, s, ran, alone, ?_⟩
  by_cases accepts : j.Accepts w.scope (.ofLine path none a.line)
  · have fresh := accepts.fresh
    have symbols := Scope.symbols_store fresh u (some (Job.nameOf (.ofLine path none a.line)))
    rw [← taken accepts, clips, text_nameOf] at symbols
    have unknown : ∀ old, w.scope.lookup ((a.name.takeWhile fun c => !Text.isBlank c).take
        j.settings.symbolSize) ≠ .ok old := by
      rw [← clips, Scope.lookup_clip sized, ← a.text_nameOf path]
      exact fresh
    have beginning := (List.take_prefix j.settings.symbolSize _).trans
      (List.takeWhile_prefix (l := a.name) fun c => !Text.isBlank c)
    refine .stored _ u _ symbols unknown beginning ?_
    intro plain
    rw [takeWhile_name plain]
    obtain ⟨s', alone', _⟩ := Job.evaluate_space (Job.wellFormed_expressionOf wf)
      (text_expressionOf plain path) evaluated
    rw [alone] at alone'
    cases alone'
    exact ⟨rfl, rfl⟩
  · obtain ⟨more, nonempty, entered⟩ := Job.adds_of_not_accepts pos wf sized ran accepts
    refine .refused more nonempty entered (left accepts) ?_
    intro plain
    exact reason_of_not_accepts plain accepts

end Assignment

namespace Command

theorem map_of_mapM {α β : Type} {f : α → Option β} {as : List α} {bs : List β}
    (h : as.mapM f = some bs) : as.map f = bs.map some := by
  induction as generalizing bs with
  | nil =>
    cases h
    rfl
  | cons a rest ih =>
    rw [List.mapM_cons] at h
    obtain ⟨b, here, h⟩ := Option.bind_eq_some_iff.mp h
    obtain ⟨more, others, h⟩ := Option.bind_eq_some_iff.mp h
    cases h
    rw [List.map_cons, List.map_cons, here, ih others]

namespace Request

/-- Every option has a line of its own. -/
theorem getElem?_definitionLines {o : Options} {r : Request} (asked : o.request? = some r) {i : Nat}
    {t : Text} {a : Assignment} (given : o.definitions[i]? = some t)
    (accepted : Assignment.ofText? t = some a) :
    r.definitionLines[i]? = some (.ofLine s!"<define {i + 1}>" none a.line) := by
  have all := congrArg (fun l => l[i]?) (map_of_mapM (asked_of_request? asked).definitions)
  simp only [List.getElem?_map, given, Option.map_some, accepted] at all
  obtain ⟨b, here, same⟩ := Option.map_eq_some_iff.mp all.symm
  cases same
  simp [definitionLines, here]

/-- When the command comes to an option, the files have been read and the definitions before it are
done. Then either an error is entered for it and nothing is stored, or one new symbol is stored,
under the beginning of its name. If the name holds no blank, this is all of the name that counts,
the value is the one that its expression has by itself, and an error has a reason. -/
theorem define_option {o : Options} {r : Request} (asked : o.request? = some r) {start : Workplace}
    (read : (r.readFiles r.files).run r.start = .ok () start) {i : Nat} {t : Text} {a : Assignment}
    (given : o.definitions[i]? = some t) (accepted : Assignment.ofText? t = some a) :
    ∃ line w later v s,
      (lift ((r.job 0).defineAll (r.definitionLines.take i))).run start = .ok () w ∧
      r.definitionLines[i]? = some line ∧
      ((r.job 0).define line).run w = .ok () later ∧
      ((r.job 0).evaluate (.ofText a.expression)).run w = .ok v s ∧
      a.Settles (r.job 0) v w later := by
  have pos : (r.job 0).settings.width.Positive := (usable_of_request? asked).1
  have grows := (r.readFiles_grows r.files).of_ok read
  have wf : ∀ e ∈ r.definitionLines.take i, e.WellFormed :=
    fun e he => r.wellFormed_of_mem_definitionLines (List.mem_of_mem_take he)
  obtain ⟨w, defined, further⟩ :=
    lift_defineAll (r := r) pos wf (Scope.sized_of_grows r.sized_start grows.scope)
  have grown : r.start.Grows w := trans_of Workplace.Grows grows further
  have size := (Scope.continues_of_grows r.sized_start grown.scope).symbolSize
  obtain ⟨later, v, s, ran, alone, settles⟩ :=
    a.settles_define pos (w := w) size s!"<define {i + 1}>"
  exact ⟨_, w, later, v, s, defined, getElem?_definitionLines asked given accepted, ran, alone,
    settles⟩

/-- The blank in front of the name does not count, and of the name eight characters do. -/
theorem define_option_second :
    let t := " TOP_OF_RAM=BASE+10H".toList
    let o : Options := { definitions := ["BASE=8000H".toList, t], operands := [['$']] }
    let a : Assignment := ⟨"TOP_OF_RAM".toList, "BASE+10H".toList⟩
    o.definitions[1]? = some t ∧ Assignment.ofText? t = some a ∧
    ∃ r w later line s source, o.request? = some r ∧
      (r.readFiles r.files).run r.start = .ok () r.start ∧
      (lift ((r.job 0).defineAll (r.definitionLines.take 1))).run r.start = .ok () w ∧
      r.definitionLines[1]? = some line ∧ ((r.job 0).define line).run w = .ok () later ∧
      ((r.job 0).evaluate (.ofText a.expression)).run w = .ok 32784 s ∧
      later.scope.inner.symbols =
        w.scope.inner.symbols ++ [⟨"TOP_OF_R".toList, 32784, source⟩] := by
  intro t o a
  have accepted : Assignment.ofText? t = some a := by decide
  have usable : o.request?.isSome = true := by decide +kernel
  obtain ⟨r, asked⟩ := Option.isSome_iff_exists.mp usable
  have files : r.files = [] := (usable_of_request? asked).2
  have read : (r.readFiles r.files).run r.start = .ok () r.start := by
    rw [files]
    rfl
  obtain ⟨line, w, later, v, s, before, here, ran, alone, settles⟩ :=
    define_option (i := 1) asked read rfl accepted
  -- What the options before it and the option itself come to is computed for the whole request.
  have computed : (o.request?.bind fun r =>
      match (lift ((r.job 0).defineAll (r.definitionLines.take 1))).run r.start,
          r.definitionLines[1]? with
      | .ok _ w, some line =>
        match ((r.job 0).evaluate (.ofText a.expression)).run w,
            ((r.job 0).define line).run w with
        | .ok v _, .ok _ later => some (v, r.settings.symbolSize, later.desk.a.reports == #[])
        | _, _ => none
      | _, _ => none) = some (32784, 8, true) := by
    decide +kernel
  rw [asked] at computed
  simp only [Option.bind_some, before, here, alone, ran, Option.some.injEq, Prod.mk.injEq,
    beq_iff_eq] at computed
  obtain ⟨rfl, size, quiet⟩ := computed
  cases settles with
  | refused more nonempty entered same reason =>
    have all : later.desk.a.reports.toList = w.desk.a.reports.toList ++ more := entered.reports
    rw [quiet] at all
    exact absurd (List.append_eq_nil_iff.mp all.symm).2 nonempty
  | stored kept u source symbols fresh beginning spelled =>
    have plain : ∀ c ∈ a.name, Text.isBlank c = false := by
      have none : a.name.any Text.isBlank = false := by decide
      simpa only [List.any_eq_false, Bool.not_eq_true] using none
    obtain ⟨rfl, rfl⟩ := spelled plain
    rw [show (r.job 0).settings.symbolSize = 8 from size] at symbols
    exact ⟨rfl, accepted, r, w, later, line, s, source, asked, read, before, here, ran, alone,
      symbols⟩

/-- With a blank within the name the part behind it is read as the start of the expression. The
symbol is stored under the part before it, and no error is entered. -/
theorem define_option_blank :
    let t := "A 2-=5".toList
    let o : Options := { definitions := [t], operands := [['A']] }
    Assignment.ofText? t = some ⟨"A 2-".toList, ['5']⟩ ∧
    o.request?.bind (fun r =>
      match ((r.job 0).defineAll r.definitionLines).run r.start,
          ((r.job 0).evaluate (.ofText ['5'])).run r.start with
      | .ok _ later, .ok v _ => some (v, later.scope.inner.bindings, later.desk.a.reports.toList)
      | _, _ => none) = some (5, [(['A'], -3)], []) := by
  decide +kernel

end Request

end Command

end AsmOperand
