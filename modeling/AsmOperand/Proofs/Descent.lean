import AsmOperand.Proofs.Range

/-!
# Recursive descent

`Env.descend` evaluates an operand without a list of operators that wait: at an operator it first
evaluates all that follows, as an operand of its own, and then combines. It works on excerpts only,
cutting off from the left what it has read. Evaluation in one pass comes to the same outcome: the
same value, the same problems and steps in the same order, and the same readings of the counter.
-/

namespace AsmOperand

/-- What counts of a group is shorter than the excerpt that the group stands in. -/
theorem Scan.length_body_lt {limit n : Nat} {nested : Bool} {e : Excerpt} {c : Char} {rest : Text}
    (remains : 0 < e.length) (chars : e.text = c :: rest)
    (closes : groupLength? nested 0 rest = some n) :
    (clip limit (e.sub 1 (1 + n))).kept.length.toNat < e.length.toNat := by
  have forward : e.isBackward = false := by
    simp only [Excerpt.length] at remains
    simp only [Excerpt.isBackward, decide_eq_false_iff_not]
    omega
  have kept := length_clip_le limit (e.sub 1 (1 + n))
  have cut := Excerpt.length_sub e 1 (1 + n)
  have inside := lt_length_of_groupLength? closes
  have spelled := Excerpt.length_text_le e forward
  rw [chars, List.length_cons] at spelled
  omega

namespace Env

open Evaluation

/-- Reads an excerpt from the left; `value` is the value so far. -/
def descend (env : Env) (value : Int) (e : Excerpt) : Evaluation Int :=
  if _ : 0 < e.length then
    match _ : e.text with
    | [] => pure value
    | c :: rest =>
      if Text.isBlank c then env.descend value (e.tail 1)
      else if c = '(' then
        match closes : Scan.groupLength? env.settings.nested 0 rest with
        | none => do
          report .missingParenthesis e
          return value
        | some n => do
          let body := Scan.clip env.settings.maxLength (e.sub 1 (1 + n))
          env.reportOverlong body.overlong
          let inner ← env.descend 0 body.kept
          env.descend inner (e.tail (n + 2))
      else if c = env.settings.delimiter then do
        let n := (Scan.stringChars env.settings.delimiter rest).length
        let body := Scan.clip env.settings.maxLength (e.sub 1 (1 + n))
        let closed := rest[n]? = some env.settings.delimiter
        reportUnended (if closed then none else some (e.sub 0 (1 + n)))
        env.reportOverlong body.overlong
        let packed ← env.wrap (Numeral.packed body.kept.text)
        env.descend packed (e.tail (if closed then n + 2 else n + 1))
      else do
        let n := Scan.wordLength c rest
        let word := Scan.clip env.settings.maxLength (e.sub 0 (1 + n))
        env.reportOverlong word.overlong
        match Token.ofText word.kept.text with
        | .operator op => do
          let right ← env.descend 0 (e.tail (n + 1))
          env.combine op value right word.kept
        | _ => do
          let next ← env.wordValue word.kept value
          env.descend next (e.tail (n + 1))
  else pure value
termination_by e.length.toNat
decreasing_by
  · rw [Excerpt.length_tail]
    omega
  · exact Scan.length_body_lt ‹_› ‹_› closes
  · rw [Excerpt.length_tail]
    omega
  · rw [Excerpt.length_tail]
    split <;> omega
  · rw [Excerpt.length_tail]
    omega
  · rw [Excerpt.length_tail]
    omega

theorem descend_of_length {env : Env} (value : Int) {e : Excerpt} (h : e.length ≤ 0) :
    env.descend value e = pure value := by
  rw [descend, dif_neg (by omega)]

theorem descend_nil {env : Env} (value : Int) {e : Excerpt} (wf : e.WellFormed) (ht : e.text = []) :
    env.descend value e = pure value := by
  have len := Excerpt.length_eq wf
  rw [ht, List.length_nil] at len
  exact descend_of_length value (by omega)

/-- Behind all of a text the descent ends. -/
theorem descend_behind (env : Env) (value : Int) {e : Excerpt} (wf : e.WellFormed) {t : Text}
    (ht : e.text = t) : env.descend value (e.tail t.length) = pure value := by
  have whole : e.text = t ++ [] := by rw [ht, List.append_nil]
  obtain ⟨ending, nothing⟩ := Excerpt.tail_of_append wf whole
  exact descend_nil value ending nothing

/-- One step of the descent. -/
theorem descend_cons {env : Env} (value : Int) {e : Excerpt} (wf : e.WellFormed) {c : Char}
    {rest : Text} (ht : e.text = c :: rest) : env.descend value e = (
    if Text.isBlank c then env.descend value (e.tail 1)
    else if c = '(' then
      match Scan.groupLength? env.settings.nested 0 rest with
      | none => do
        report .missingParenthesis e
        return value
      | some n => do
        let body := Scan.clip env.settings.maxLength (e.sub 1 (1 + n))
        env.reportOverlong body.overlong
        let inner ← env.descend 0 body.kept
        env.descend inner (e.tail (n + 2))
    else if c = env.settings.delimiter then do
      let n := (Scan.stringChars env.settings.delimiter rest).length
      let body := Scan.clip env.settings.maxLength (e.sub 1 (1 + n))
      let closed := rest[n]? = some env.settings.delimiter
      reportUnended (if closed then none else some (e.sub 0 (1 + n)))
      env.reportOverlong body.overlong
      let packed ← env.wrap (Numeral.packed body.kept.text)
      env.descend packed (e.tail (if closed then n + 2 else n + 1))
    else do
      let n := Scan.wordLength c rest
      let word := Scan.clip env.settings.maxLength (e.sub 0 (1 + n))
      env.reportOverlong word.overlong
      match Token.ofText word.kept.text with
      | .operator op => do
        let right ← env.descend 0 (e.tail (n + 1))
        env.combine op value right word.kept
      | _ => do
        let next ← env.wordValue word.kept value
        env.descend next (e.tail (n + 1))) := by
  have len := Excerpt.length_eq wf
  rw [ht, List.length_cons] at len
  rw [descend, dif_pos (by omega)]
  split
  · rename_i empty
    rw [ht] at empty
    cases empty
  · rename_i chars
    obtain ⟨rfl, rfl⟩ := List.cons.inj (ht.symm.trans chars)
    refine if_congr Iff.rfl rfl (if_congr Iff.rfl ?_ rfl)
    split
    · rename_i closes
      rw [closes]
    · rename_i closes
      rw [closes]

/-- Passing over the scan from column `i` on is descending from there. -/
theorem pass_ofChars (env : Env) {e : Excerpt} (wf : e.WellFormed) {i : Nat} {t : Text}
    (ht : e.text.drop i = t) (value : Int) :
    env.pass (Scan.ofChars env.settings e i t) [] value = env.descend value (e.tail i) := by
  -- The value is left open, since groups and the right sides of operators start at zero again.
  fun_induction Scan.ofChars env.settings e i t generalizing value with
  | case1 e i =>
    have len := Excerpt.length_eq wf
    have done := List.drop_eq_nil_iff.mp ht
    rw [descend_of_length value (by rw [Excerpt.length_tail]; omega), pass, unwind]
  | case2 e i c rest blank ih =>
    obtain ⟨here, spells, room, next⟩ := Excerpt.start_of_drop wf ht
    rw [descend_cons value here spells, if_pos blank, ih wf (next 0), Excerpt.tail_tail]
  | case3 e i rest closes notBlank =>
    obtain ⟨here, spells, room, next⟩ := Excerpt.start_of_drop wf ht
    rw [descend_cons value here spells, if_neg notBlank, if_pos rfl, closes]
    simp only [pass, unwind]
  | case4 e i rest n closes body notBlank ihBody ihRest =>
    obtain ⟨here, spells, room, next⟩ := Excerpt.start_of_drop wf ht
    have inside := Scan.lt_length_of_groupLength? closes
    have bodyWf : body.kept.WellFormed :=
      Scan.wellFormed_clip (Excerpt.wellFormed_sub wf (by omega) (by omega)) _
    have whole := Excerpt.tail_zero bodyWf
    rw [descend_cons value here spells, if_neg notBlank, if_pos rfl, closes]
    simp only [pass, Excerpt.tail_sub, Excerpt.tail_tail, ← Nat.add_assoc, ihBody bodyWf rfl,
      ihRest wf (next (n + 1)), whole, body]
  | case5 e i rest n body closed notBlank notOpen ih =>
    obtain ⟨here, spells, room, next⟩ := Excerpt.start_of_drop wf ht
    rw [descend_cons value here spells, if_neg notBlank, if_neg notOpen, if_pos rfl, pass_quoted]
    simp only [n] at closed
    simp only [Excerpt.tail_sub, Excerpt.tail_tail, ← Nat.add_assoc, ih wf (next (n + 1)),
      if_pos closed, n, body]
  | case6 e i rest n body closed notBlank notOpen ih =>
    obtain ⟨here, spells, room, next⟩ := Excerpt.start_of_drop wf ht
    rw [descend_cons value here spells, if_neg notBlank, if_neg notOpen, if_pos rfl, pass_quoted]
    simp only [n] at closed
    simp only [Excerpt.tail_sub, Excerpt.tail_tail, ← Nat.add_assoc, Nat.add_zero, ih wf (next n),
      if_neg closed, n, body]
  | case7 e i c rest notBlank notOpen notQuote n token ih =>
    obtain ⟨here, spells, room, next⟩ := Excerpt.start_of_drop wf ht
    rw [descend_cons value here spells, if_neg notBlank, if_neg notOpen, if_neg notQuote,
      pass_word_nil]
    simp only [Excerpt.tail_sub, Excerpt.tail_tail, ← Nat.add_assoc, Nat.add_zero, ih wf (next n)]
    cases Token.ofText token.kept.text with
    | operator op => rfl
    | numeral r => rfl
    | name => rfl

/-- The one pass and the descent are the same evaluation. -/
theorem evaluate_eq_descend (env : Env) {e : Excerpt} (wf : e.WellFormed) :
    env.evaluate e = env.descend 0 e := by
  rw [evaluate_eq_pass env wf, Excerpt.scan, pass_ofChars env wf List.drop_zero,
    Excerpt.tail_zero wf]

/-- With a width that leaves room for a value, evaluation in one pass and the descent come to one
outcome, whatever the text is. -/
theorem evaluate_refines_descend {env : Env} (pos : env.settings.width.Positive) {e : Excerpt}
    (wf : e.WellFormed) (k : Nat) :
    ∃ o, Yields (env.evaluate e) k o ∧ Yields (env.descend 0 e) k o := by
  obtain ⟨o, ho, _, _⟩ := evaluate_ends pos wf (admits_fits env _) k
  have same := evaluate_eq_descend env wf
  exact ⟨o, ho, same ▸ ho⟩

/-- Three operators wait here while the text is read. -/
theorem evaluate_refines_descend_chain :
    let env : Env := ⟨Settings.default, fun _ => none, fun k => k⟩
    let e := Excerpt.ofText "10-3-$/(X".toList
    env.settings.width.Positive ∧ e.WellFormed ∧
      ∃ o, Yields (env.evaluate e) 0 o ∧ Yields (env.descend 0 e) 0 o := by
  have wf := Excerpt.wellFormed_ofText "10-3-$/(X".toList
  exact ⟨by decide, wf, evaluate_refines_descend (by decide) wf 0⟩

end Env

end AsmOperand
