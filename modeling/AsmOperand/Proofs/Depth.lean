import AsmOperand.Proofs.Passes

/-!
# Depth of recursion

Only a group makes one evaluation start another inside it. `Env.call` is the evaluation with two
limits: how deep calls may stand in each other, and how many rounds the scanning loop of a call may
take, one for each character of its text. A call that meets a limit gives up. At the depth that the
settings allow none does, whatever the operand is, and the outcome is the one without limits.

What counts of a group is cut to the length limit before it is evaluated, and a group inside it is
shorter by two parentheses. Without nesting there is no group inside a group at all.
-/

namespace AsmOperand

/-- An evaluation that can give up. -/
abbrev Limited := OptionT Evaluation

/-- How deep calls can stand in each other, the outermost one counted. -/
def Settings.depthLimit (s : Settings) : Nat := if s.nested then 2 + s.maxLength / 2 else 2

namespace Env

open Evaluation

/-- The scanning loop of one call from column `i` on, with `rounds` rounds left; `inner` is the call
for what stands in a group. -/
def scanLoop (env : Env) (inner : Excerpt → Limited Int) (e : Excerpt) :
    Nat → Nat → List Pending → Int → Limited Int
  | 0, i, pending, value =>
    if i < e.text.length then failure else liftM (env.unwind pending value)
  | rounds + 1, i, pending, value =>
    match e.text.drop i with
    | [] => liftM (env.unwind pending value)
    | c :: rest =>
      if Text.isBlank c then env.scanLoop inner e rounds (i + 1) pending value
      else if c = '(' then
        match Scan.groupLength? env.settings.nested 0 rest with
        | none => do
          liftM (report .missingParenthesis (e.tail i))
          liftM (env.unwind pending value)
        | some n => do
          let body := Scan.clip env.settings.maxLength (e.sub (i + 1) (i + 1 + n))
          liftM (env.reportOverlong body.overlong)
          let value ← inner body.kept
          env.scanLoop inner e rounds (i + n + 2) pending value
      else if c = env.settings.delimiter then do
        let n := (Scan.stringChars env.settings.delimiter rest).length
        let body := Scan.clip env.settings.maxLength (e.sub (i + 1) (i + 1 + n))
        let closed := rest[n]? = some env.settings.delimiter
        liftM (reportUnended (if closed then none else some (e.sub i (i + 1 + n))))
        liftM (env.reportOverlong body.overlong)
        let value ← liftM (env.wrap (Numeral.packed body.kept.text))
        env.scanLoop inner e rounds (if closed then i + n + 2 else i + n + 1) pending value
      else do
        let n := Scan.wordLength c rest
        let token := Scan.clip env.settings.maxLength (e.sub i (i + 1 + n))
        liftM (env.reportOverlong token.overlong)
        match Token.ofText token.kept.text with
        | .operator op =>
          env.scanLoop inner e rounds (i + n + 1) (⟨op, value, token.kept⟩ :: pending) 0
        | _ => do
          let value ← liftM (env.wordValue token.kept value)
          env.scanLoop inner e rounds (i + n + 1) pending value

/-- One call, and at most `depth - 1` further ones inside each other. -/
def call (env : Env) : Nat → Excerpt → Limited Int
  | 0, _ => failure
  | depth + 1, e => env.scanLoop (env.call depth) e e.text.length 0 [] 0

end Env

/-- How deep the calls for a scan stand in each other. -/
def Scan.depth : Scan → Nat
  | .done => 1
  | .unclosed _ => 1
  | .group _ body rest => max (body.depth + 1) rest.depth
  | .quoted _ _ _ rest => rest.depth
  | .word _ _ rest => rest.depth

namespace Scan

theorem depth_pos (s : Scan) : 1 ≤ s.depth := by
  induction s with
  | done => exact Nat.le_refl 1
  | unclosed opened => exact Nat.le_refl 1
  | group overlong body rest ihBody ihRest => exact Nat.le_trans ihRest (Nat.le_max_right _ _)
  | quoted unended overlong chars rest ih => exact ih
  | word overlong token rest ih => exact ih

/-- A group takes two parentheses, so texts of twice the depth are needed. -/
theorem depth_ofChars_le (s : Settings) (e : Excerpt) (i : Nat) (t : Text) :
    (ofChars s e i t).depth ≤ 1 + t.length / 2 := by
  fun_induction ofChars s e i t with
  | case1 e i => exact Nat.le_refl 1
  | case2 e i c rest blank ih =>
    rw [List.length_cons]
    omega
  | case3 e i rest closes notBlank =>
    rw [List.length_cons, depth]
    omega
  | case4 e i rest n closes body notBlank ihBody ihRest =>
    have inside := lt_length_of_groupLength? closes
    have kept : body.kept.text.length ≤ (i + 1 + n) - (i + 1) := length_kept_le _ _ _ _
    rw [List.length_drop] at ihRest
    rw [List.length_cons, depth]
    omega
  | case5 e i rest n body closed notBlank notOpen ih =>
    rw [List.length_drop] at ih
    rw [List.length_cons, depth]
    omega
  | case6 e i rest n body closed notBlank notOpen ih =>
    rw [List.length_drop] at ih
    rw [List.length_cons, depth]
    omega
  | case7 e i c rest notBlank notOpen notQuote n token ih =>
    rw [List.length_drop] at ih
    rw [List.length_cons, depth]
    omega

/-- A group is closed by a parenthesis in the text behind it. -/
theorem closing_mem_of_groupLength? {nested : Bool} {depth n : Nat} {t : Text}
    (h : groupLength? nested depth t = some n) : ')' ∈ t := by
  fun_induction groupLength? nested depth t generalizing n with
  | case1 => cases h
  | case2 => exact List.mem_cons_self
  | case3 => exact List.mem_cons_self
  | case4 depth c rest notClose opens ih =>
    obtain ⟨m, hm, _⟩ := Option.map_eq_some_iff.mp h
    exact List.mem_cons_of_mem c (ih hm)
  | case5 depth c rest notClose plain ih =>
    obtain ⟨m, hm, _⟩ := Option.map_eq_some_iff.mp h
    exact List.mem_cons_of_mem c (ih hm)

/-- Without nesting a group ends at the first closing parenthesis. -/
theorem closing_notMem_of_groupLength? {n : Nat} {t : Text}
    (h : groupLength? false 0 t = some n) : ')' ∉ t.take n := by
  induction t generalizing n with
  | nil => simp
  | cons c rest ih =>
    rw [groupLength?.eq_def] at h
    by_cases close : c = ')'
    · simp only [if_pos close, Option.some.injEq] at h
      rw [← h, List.take_zero]
      exact List.not_mem_nil
    · simp only [if_neg close, Bool.false_eq_true, and_false, if_false] at h
      obtain ⟨m, hm, rfl⟩ := Option.map_eq_some_iff.mp h
      rw [List.take_succ_cons, List.mem_cons, not_or]
      exact ⟨fun same => close same.symm, ih hm⟩

/-- Where nothing closes a group, none is entered. -/
theorem depth_ofChars_of_notMem (s : Settings) (e : Excerpt) (i : Nat) {t : Text}
    (h : ')' ∉ t) : (ofChars s e i t).depth = 1 := by
  fun_induction ofChars s e i t with
  | case1 e i => rfl
  | case2 e i c rest blank ih => exact ih (List.not_mem_of_not_mem_cons h)
  | case3 e i rest closes notBlank => rfl
  | case4 e i rest n closes body notBlank ihBody ihRest =>
    exact absurd (List.mem_cons_of_mem _ (closing_mem_of_groupLength? closes)) h
  | case5 e i rest n body closed notBlank notOpen ih =>
    exact ih fun mem => h (List.mem_cons_of_mem _ (List.mem_of_mem_drop mem))
  | case6 e i rest n body closed notBlank notOpen ih =>
    exact ih fun mem => h (List.mem_cons_of_mem _ (List.mem_of_mem_drop mem))
  | case7 e i c rest notBlank notOpen notQuote n token ih =>
    exact ih fun mem => h (List.mem_cons_of_mem _ (List.mem_of_mem_drop mem))

/-- What can stand in a group: it is cut to the length limit, and without nesting nothing in it
closes a group. -/
structure Body (s : Settings) (e : Excerpt) : Prop where
  wellFormed : e.WellFormed
  short : e.text.length ≤ s.maxLength
  flat : s.nested = false → ')' ∉ e.text

/-- Calls go one deeper than those for the groups alone. -/
theorem depth_ofChars_le_of_body {s : Settings} {b : Nat}
    (bodies : ∀ body, Body s body → (body.scan s).depth ≤ b) {e : Excerpt} (wf : e.WellFormed)
    {i : Nat} {t : Text} (ht : e.text.drop i = t) : (ofChars s e i t).depth ≤ b + 1 := by
  fun_induction ofChars s e i t with
  | case1 e i => exact Nat.le_add_left 1 b
  | case2 e i c rest blank ih =>
    obtain ⟨_, _, _, next⟩ := Excerpt.start_of_drop wf ht
    exact ih wf (next 0)
  | case3 e i rest closes notBlank => exact Nat.le_add_left 1 b
  | case4 e i rest n closes body notBlank ihBody ihRest =>
    obtain ⟨_, _, _, next⟩ := Excerpt.start_of_drop wf ht
    have inside := lt_length_of_groupLength? closes
    obtain ⟨part, spelled⟩ := Excerpt.part_behind wf ht (Nat.le_of_lt inside)
    have kept : body.kept.text = (rest.take n).take s.maxLength := by
      rw [text_clip part, spelled]
    have isBody : Body s body.kept := by
      refine ⟨wellFormed_clip part _, ?_, ?_⟩
      · rw [kept]
        exact List.length_take_le _ _
      · intro flat mem
        rw [flat] at closes
        rw [kept] at mem
        exact closing_notMem_of_groupLength? closes (List.mem_of_mem_take mem)
    have deep := bodies body.kept isBody
    have others := ihRest wf (next (n + 1))
    rw [Excerpt.scan] at deep
    rw [depth]
    omega
  | case5 e i rest n body closed notBlank notOpen ih =>
    obtain ⟨_, _, _, next⟩ := Excerpt.start_of_drop wf ht
    exact ih wf (next (n + 1))
  | case6 e i rest n body closed notBlank notOpen ih =>
    obtain ⟨_, _, _, next⟩ := Excerpt.start_of_drop wf ht
    exact ih wf (next n)
  | case7 e i c rest notBlank notOpen notQuote n token ih =>
    obtain ⟨_, _, _, next⟩ := Excerpt.start_of_drop wf ht
    exact ih wf (next n)

/-- The depth of an operand is limited by the settings, however long it is. -/
theorem depth_scan_le (s : Settings) {e : Excerpt} (wf : e.WellFormed) :
    (e.scan s).depth ≤ s.depthLimit := by
  rw [Excerpt.scan, Settings.depthLimit]
  split
  · have bodies : ∀ body, Body s body → (body.scan s).depth ≤ 1 + s.maxLength / 2 := by
      intro body hb
      have half := depth_ofChars_le s body 0 body.text
      have short := hb.short
      rw [Excerpt.scan]
      omega
    have deep := depth_ofChars_le_of_body bodies wf List.drop_zero
    omega
  · rename_i notNested
    apply depth_ofChars_le_of_body _ wf List.drop_zero
    intro body hb
    have flat := hb.flat (by simpa using notNested)
    exact Nat.le_of_eq (depth_ofChars_of_notMem s body 0 flat)

end Scan

namespace Env

section Loop
variable {env : Env} (inner : Excerpt → Limited Int) {e : Excerpt} (pending : List Pending)
  (value : Int) {i rounds : Nat}

theorem scanLoop_nil (ht : e.text.drop i = []) :
    env.scanLoop inner e rounds i pending value = liftM (env.unwind pending value) := by
  cases rounds with
  | zero =>
    have done := List.drop_eq_nil_iff.mp ht
    rw [scanLoop, if_neg (Nat.not_lt.mpr done)]
  | succ rounds => rw [scanLoop, ht]

/-- Where the text goes on, one of the rounds is left for its next character. -/
theorem round_left {c : Char} {rest : Text} (enough : (c :: rest).length ≤ rounds) :
    ∃ left, rounds = left + 1 ∧ rest.length ≤ left := by
  rw [List.length_cons] at enough
  exact ⟨rounds - 1, by omega, by omega⟩

end Loop

/-- With enough rounds for the text, and calls that come to what the groups' passes come to, the
loop comes to what the pass over the scan comes to. -/
theorem scanLoop_eq_pass {env : Env} {inner : Excerpt → Limited Int} {d : Nat}
    (agrees : ∀ body : Excerpt, body.WellFormed → (body.scan env.settings).depth ≤ d →
      inner body = liftM (env.pass (body.scan env.settings) [] 0))
    {e : Excerpt} (wf : e.WellFormed) {i : Nat} {t : Text} (ht : e.text.drop i = t) {rounds : Nat}
    (enough : t.length ≤ rounds) (shallow : (Scan.ofChars env.settings e i t).depth ≤ d + 1)
    (pending : List Pending) (value : Int) :
    env.scanLoop inner e rounds i pending value =
      liftM (env.pass (Scan.ofChars env.settings e i t) pending value) := by
  fun_induction Scan.ofChars env.settings e i t generalizing rounds pending value with
  | case1 e i => rw [scanLoop_nil inner pending value ht, pass]
  | case2 e i c rest blank ih =>
    obtain ⟨_, _, _, next⟩ := Excerpt.start_of_drop wf ht
    obtain ⟨left, rfl, room⟩ := round_left enough
    simp only [scanLoop, ht, if_pos blank]
    exact ih wf (next 0) room shallow pending value
  | case3 e i rest closes notBlank =>
    obtain ⟨left, rfl, room⟩ := round_left enough
    simp only [scanLoop, ht, if_neg notBlank, if_true, closes, pass, liftM_bind]
  | case4 e i rest n closes body notBlank ihBody ihRest =>
    obtain ⟨_, _, _, next⟩ := Excerpt.start_of_drop wf ht
    obtain ⟨left, rfl, room⟩ := round_left enough
    have inside := Scan.lt_length_of_groupLength? closes
    obtain ⟨part, _⟩ := Excerpt.part_behind wf ht (Nat.le_of_lt inside)
    rw [Scan.depth] at shallow
    have group := agrees body.kept (Scan.wellFormed_clip part _) (by rw [Excerpt.scan]; omega)
    have others (v : Int) := @ihRest wf (next (n + 1)) left (by rw [List.length_drop]; omega)
      (by omega) pending v
    simp only [scanLoop, ht, if_neg notBlank, if_true, closes, pass, liftM_bind]
    simp only [body, Excerpt.scan] at group
    simp only [group, others, body]
  | case5 e i rest n body closed notBlank notOpen ih =>
    obtain ⟨_, _, _, next⟩ := Excerpt.start_of_drop wf ht
    obtain ⟨left, rfl, room⟩ := round_left enough
    have others (v : Int) := @ih wf (next (n + 1)) left (by rw [List.length_drop]; omega) shallow
      pending v
    simp only [n] at closed others
    simp only [scanLoop, ht, if_neg notBlank, if_neg notOpen, if_true, if_pos closed, pass_quoted,
      liftM_bind, others, n, body]
  | case6 e i rest n body closed notBlank notOpen ih =>
    obtain ⟨_, _, _, next⟩ := Excerpt.start_of_drop wf ht
    obtain ⟨left, rfl, room⟩ := round_left enough
    have others (v : Int) := @ih wf (next n) left (by rw [List.length_drop]; omega) shallow pending v
    simp only [n] at closed others
    simp only [scanLoop, ht, if_neg notBlank, if_neg notOpen, if_true, if_neg closed, pass_quoted,
      liftM_bind, others, n, body]
  | case7 e i c rest notBlank notOpen notQuote n token ih =>
    obtain ⟨_, _, _, next⟩ := Excerpt.start_of_drop wf ht
    obtain ⟨left, rfl, room⟩ := round_left enough
    have others (ps : List Pending) (v : Int) := @ih wf (next n) left
      (by rw [List.length_drop]; omega) shallow ps v
    simp only [n] at others
    simp only [scanLoop, ht, if_neg notBlank, if_neg notOpen, if_neg notQuote, pass_word,
      liftM_bind, others, n, token]
    cases Token.ofText (Scan.clip env.settings.maxLength
        (e.sub i (i + 1 + Scan.wordLength c rest))).kept.text with
    | operator op => rfl
    | numeral r => simp only [liftM_bind]
    | name => simp only [liftM_bind]

/-- A call comes to what the pass over its scan comes to, if it may go as deep as the scan does. -/
theorem call_eq_pass {env : Env} {depth : Nat} {e : Excerpt} (wf : e.WellFormed)
    (enough : (e.scan env.settings).depth ≤ depth) :
    env.call depth e = liftM (env.pass (e.scan env.settings) [] 0) := by
  induction depth generalizing e with
  | zero => exact absurd (Nat.le_trans (Scan.depth_pos _) enough) (Nat.not_succ_le_zero 0)
  | succ depth ih =>
    rw [call]
    exact scanLoop_eq_pass (fun body hb shallow => ih hb shallow) wf List.drop_zero (Nat.le_refl _)
      enough [] 0

/-- At the depth that the settings allow, or any greater one, no call gives up, and the outcome is
the one of the evaluation without limits. -/
theorem call_eq_evaluate (env : Env) {e : Excerpt} (wf : e.WellFormed) {depth : Nat}
    (enough : env.settings.depthLimit ≤ depth) :
    (env.call depth e).run = some <$> env.evaluate e := by
  have shallow := Scan.depth_scan_le env.settings wf
  rw [call_eq_pass wf (Nat.le_trans shallow enough), evaluate_eq_pass env wf, map_eq_pure_bind]
  rfl

/-- Three calls stand in each other here; two characters of a group count, and two calls are not
enough. -/
theorem call_eq_evaluate_nested :
    let s : Settings :=
      { Settings.default with nested := true, maxLength := 2, maxLength_pos := by decide }
    let env : Env := ⟨s, fun _ => none, fun _ => 0⟩
    let e := Excerpt.ofText "7+(())".toList
    e.WellFormed ∧ env.settings.depthLimit ≤ 3 ∧ (env.call 3 e).run = some <$> env.evaluate e ∧
      (env.call 2 e).run.run {} = .ok none {} := by
  intro s env e
  have wf : e.WellFormed := Excerpt.wellFormed_ofText _
  exact ⟨wf, by decide, call_eq_evaluate env wf (by decide), by rfl⟩

end Env

end AsmOperand
