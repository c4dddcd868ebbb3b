import AsmOperand.Proofs.Placement
import AsmOperand.Proofs.Spelling
import Mathlib.Data.List.Infix

/-!
# Parentheses around an operand

An operand in parentheses is evaluated as what stands in them. Parentheses are in pairs in a text if
no start of it closes more of them than it opens, and the whole of it as many; quotation marks do
not count. Where groups nest, such a text is ended by the parenthesis behind it and by no earlier
one; where they do not, a text without a closing parenthesis is.

What is too long is reported once, and its beginning is evaluated, wherever that was cut off.
-/

namespace AsmOperand

/-- No start of the text closes more parentheses than it opens, and the whole of it as many. -/
structure Paired (t : Text) : Prop where
  starts : ∀ u, u <+: t → u.count ')' ≤ u.count '('
  whole : t.count ')' = t.count '('

instance (t : Text) : Decidable (Paired t) :=
  decidable_of_iff ((∀ u ∈ t.inits, u.count ')' ≤ u.count '(') ∧ t.count ')' = t.count '(')
    ⟨fun h => ⟨fun u hu => h.1 u ((List.mem_inits u t).mpr hu), h.2⟩,
      fun h => ⟨fun u hu => h.starts u ((List.mem_inits u t).mp hu), h.whole⟩⟩

/-- Looking for the end of a group, one passes a text that does not close it. What the text opens
is still open behind it. -/
theorem groupLength?_append {t : Text} {depth : Nat}
    (starts : ∀ u, u <+: t → u.count ')' ≤ depth + u.count '(') (rest : Text) :
    Scan.groupLength? true depth (t ++ rest) =
      (Scan.groupLength? true (depth + t.count '(' - t.count ')') rest).map (· + t.length) := by
  induction t generalizing depth with
  | nil => simp
  | cons c t ih =>
    have next (u : Text) (hu : u <+: t) := starts (c :: u) ((List.prefix_cons_inj c).mpr hu)
    rw [List.cons_append]
    by_cases close : c = ')'
    · subst close
      have here : 1 ≤ depth := starts [')'] (by simp)
      obtain ⟨d, rfl⟩ : ∃ d, depth = d + 1 := Nat.exists_eq_add_one.mpr here
      have inner (u : Text) (hu : u <+: t) : u.count ')' ≤ d + u.count '(' := by
        have := next u hu
        rw [List.count_cons_self, List.count_cons_of_ne (by decide)] at this
        omega
      have left : d + 1 + t.count '(' - (t.count ')' + 1) = d + t.count '(' - t.count ')' := by
        omega
      rw [groupLength?_close, ih inner, List.count_cons_self, List.count_cons_of_ne (by decide),
        left, Option.map_map]
      rfl
    by_cases opens : c = '('
    · subst opens
      have inner (u : Text) (hu : u <+: t) : u.count ')' ≤ depth + 1 + u.count '(' := by
        have := next u hu
        rw [List.count_cons_self, List.count_cons_of_ne (by decide)] at this
        omega
      have left :
          depth + (t.count '(' + 1) - t.count ')' = depth + 1 + t.count '(' - t.count ')' := by
        omega
      rw [groupLength?_open, ih inner, List.count_cons_self, List.count_cons_of_ne (by decide),
        left, Option.map_map]
      rfl
    · have inner (u : Text) (hu : u <+: t) : u.count ')' ≤ depth + u.count '(' := by
        have := next u hu
        rwa [List.count_cons_of_ne close, List.count_cons_of_ne opens] at this
      rw [groupLength?_plain opens close, ih inner, List.count_cons_of_ne close,
        List.count_cons_of_ne opens, Option.map_map]
      rfl

/-- Parentheses in pairs are passed as a whole, at every depth. -/
theorem Paired.balanced {t : Text} (paired : Paired t) : Balanced t := by
  intro depth rest
  have starts (u : Text) (hu : u <+: t) : u.count ')' ≤ depth + u.count '(' :=
    Nat.le_add_left_of_le (paired.starts u hu)
  have left : depth + t.count '(' - t.count ')' = depth := by
    have := paired.whole
    omega
  rw [groupLength?_append starts, left]

/-- Where groups do not nest, only the closing parenthesis counts. -/
theorem groupLength?_flat {t : Text} (flat : ')' ∉ t) (rest : Text) :
    Scan.groupLength? false 0 (t ++ ')' :: rest) = some t.length := by
  induction t with
  | nil =>
    rw [List.nil_append, Scan.groupLength?.eq_def]
    rfl
  | cons c t ih =>
    obtain ⟨notClose, others⟩ := not_or.mp (List.mem_cons.not.mp flat)
    rw [List.cons_append, Scan.groupLength?.eq_def]
    simp only [if_neg (Ne.symm notClose), Bool.false_eq_true, and_false, if_false, ih others]
    rfl

/-- A text that the parenthesis behind it ends as a group. -/
def Settings.Encloses (s : Settings) (t : Text) : Prop :=
  (s.nested = true ∧ Paired t) ∨ (s.nested = false ∧ ')' ∉ t)

theorem Settings.Encloses.groupLength?_eq {s : Settings} {t : Text} (h : s.Encloses t) :
    Scan.groupLength? s.nested 0 (t ++ [')']) = some t.length := by
  rcases h with ⟨nested, paired⟩ | ⟨notNested, flat⟩
  · rw [nested]
    exact paired.balanced.groupLength?_eq []
  · rw [notNested]
    exact groupLength?_flat flat []

/-- What is shown in the beginning of an excerpt is shown in the excerpt. -/
theorem Excerpt.placed_sub_zero (whole : Excerpt) (b : Nat) :
    (whole.sub 0 b).placed = whole.placed := by
  funext e
  simp [placed, sub, withSpan]

namespace Env

/-- The value of a group is that of what counts of it. -/
theorem evaluate_parentheses (env : Env) {t : Text} (encloses : env.settings.Encloses t)
    {e : Excerpt} (wf : e.WellFormed) (ht : e.text = '(' :: t ++ [')']) :
    env.evaluate e = (do
      let body := Scan.clip env.settings.maxLength (e.sub 1 (1 + t.length))
      env.reportOverlong body.overlong
      env.evaluate body.kept) := by
  obtain ⟨inside, _⟩ := Excerpt.part_between wf ['('] t ht (a := 1) (b := 1 + t.length) rfl rfl
  have kept := Scan.wellFormed_clip inside env.settings.maxLength
  have last : (t ++ [')']).drop (t.length + 1) = [] := by
    rw [← List.drop_drop, List.drop_left]
    rfl
  rw [List.cons_append] at ht
  rw [evaluate_eq_pass env wf, Excerpt.scan, ht,
    Scan.ofChars_group env.settings e 0 encloses.groupLength?_eq, last, Scan.ofChars]
  simp only [pass, unwind, bind_pure, Nat.zero_add, evaluate_eq_pass env kept]

/-- What stands in parentheses is evaluated as it would be by itself, at its place between them. If
it is too long, this is reported first, and the beginning that counts is evaluated. -/
theorem evaluate_group (env : Env) {t : Text} (encloses : env.settings.Encloses t) {e : Excerpt}
    (wf : e.WellFormed) (ht : e.text = '(' :: t ++ [')']) (k : Nat) :
    let inside := e.sub 1 (1 + t.length)
    (t.length ≤ env.settings.maxLength → ∃ x,
      EndsAs (env.evaluate (.ofText t)) k x ∧
        EndsAs (env.evaluate e) k ⟨x.result, x.events.map (Event.placed inside), x.reads⟩) ∧
    (env.settings.maxLength < t.length → ∃ x,
      EndsAs (env.evaluate (.ofText (t.take env.settings.maxLength))) k x ∧
        EndsAs (env.evaluate e) k ⟨x.result,
          .problem (.tooLong t.length env.settings.maxLength) inside ::
            x.events.map (Event.placed inside), x.reads⟩) := by
  intro inside
  obtain ⟨part, spelled⟩ := Excerpt.part_between wf ['('] t ht (a := 1) (b := 1 + t.length) rfl rfl
  have length : inside.length = t.length := by rw [Excerpt.length_eq part, spelled]
  have step := evaluate_parentheses env encloses wf ht
  constructor
  · intro short
    obtain ⟨x, alone, here⟩ := env.evaluate_relocates part k
    rw [Scan.clip_eq_self part _ (by rwa [spelled])] at step
    rw [spelled] at alone
    refine ⟨x, alone, ?_⟩
    rw [step, Event.placed_eq]
    exact EndsAs.bind (f := fun _ => env.evaluate inside) (env.reportOverlong_ends none k) here
  · intro long
    have kept := Scan.text_clip part env.settings.maxLength
    have keptWf := Scan.wellFormed_clip part env.settings.maxLength
    have clipped : Scan.clip env.settings.maxLength inside =
        ⟨inside.sub 0 env.settings.maxLength, some inside⟩ := by
      rw [Scan.clip, if_neg (by omega)]
    rw [clipped] at step kept keptWf
    obtain ⟨x, alone, here⟩ := env.evaluate_relocates keptWf k
    rw [kept, spelled] at alone
    refine ⟨x, alone, ?_⟩
    rw [step, Event.placed_eq, ← length, ← Excerpt.placed_sub_zero inside env.settings.maxLength]
    exact EndsAs.bind (f := fun _ => env.evaluate (inside.sub 0 env.settings.maxLength))
      (env.reportOverlong_ends (some inside) k) here

/-- The limit cuts `(1)+(2)` behind its second opening parenthesis, which is missing its partner
then. -/
theorem evaluate_group_cut :
    let env : Env := ⟨{ Settings.default with
      maxLength := 5, nested := true, maxLength_pos := by decide }, fun _ => none, fun k => k⟩
    let t := "(1)+(2)".toList
    let e : Excerpt := ⟨"test.asm", some 3, " LD A,((1)+(2))".toList, 6, 15⟩
    env.settings.Encloses t ∧ e.WellFormed ∧ e.text = '(' :: t ++ [')'] ∧
      env.settings.maxLength < t.length ∧
      EndsAs (env.evaluate e) 0 ⟨.ok 1, [.problem (.tooLong 7 5) (e.sub 1 8),
        .problem .missingParenthesis (e.sub 5 6), .combined 1 .plus 0], 0⟩ := by
  intro env t e
  have encloses : env.settings.Encloses t := .inl ⟨rfl, by decide⟩
  have wf : e.WellFormed := by decide
  have ht : e.text = '(' :: t ++ [')'] := by decide
  have long : env.settings.maxLength < t.length := by decide
  obtain ⟨x, alone, here⟩ := (evaluate_group env encloses wf ht 0).2 long
  let beginning := Excerpt.ofText "(1)+(".toList
  have known : outcome? (env.evaluate beginning) 0 = some
      ⟨1, [.problem .missingParenthesis (beginning.sub 4 5), .combined 1 .plus 0], 0⟩ := by
    decide +kernel
  obtain rfl := EndsAs.eq_of_outcome? alone known
  exact ⟨encloses, wf, ht, long, here⟩

end Env

end AsmOperand
