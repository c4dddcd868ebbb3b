import AsmOperand.Proofs.Descent

/-!
# Wrapping early and wrapping late

Division, remainders and shifts aside, all operators work from the lowest bits up. An operand
without the other four therefore has the same problems at every width, and its value at a small
width is its value at a large one, wrapped to the small one. Two runs are followed side by side
here; their values so far have the same lowest bits all the time.
-/

namespace AsmOperand

/-- What an operand is evaluated against, but for the width. -/
def Env.atWidth (env : Env) (w : Width) : Env :=
  { env with settings := { env.settings with width := w } }

/-- The symbols of the operators that do not work from the lowest bits up. -/
def Operator.downward : List Char :=
  [Operator.divide, .modulo, .shiftLeft, .shiftRight].map Operator.symbol

/-- The first value is the second one wrapped to `n` bits. -/
def Narrows (n : Nat) (v w : Int) : Prop := v = signed n w

/-- A width that is at least a positive one is positive. -/
theorem Width.positive_of_le {n : Nat} {w : Width} (positive : 1 ≤ n)
    (below : (Width.bits n).le w = true) : w.Positive := by
  cases w with
  | unlimited => trivial
  | bits m =>
    simp only [Width.le, decide_eq_true_eq] at below
    simp only [Width.Positive]
    omega

theorem narrows_zero (n : Nat) : Narrows n 0 0 := by
  rw [Narrows, signed_eq_bmod]
  simp

theorem Token.symbol_mem_of_ofText {t : Text} {op : Operator} (h : ofText t = .operator op) :
    op.symbol ∈ t := by
  cases t with
  | nil => cases h
  | cons c rest =>
    rw [ofText_cons_eq_operator_iff.mp h]
    exact List.mem_cons_self

/-- An excerpt that lies on its line, without the operators that do not work upward. -/
def Upward (e : Excerpt) : Prop := e.WellFormed ∧ ∀ c ∈ e.text, c ∉ Operator.downward

section Upward
variable {e : Excerpt} (up : Upward e) {a : Nat} (ha : a ≤ e.text.length)
include up ha

theorem Upward.tail : Upward (e.tail a) := by
  obtain ⟨wf, upward⟩ := up
  refine ⟨Excerpt.wellFormed_tail wf ha, ?_⟩
  intro c hc
  rw [Excerpt.text_tail wf ha] at hc
  exact upward c (List.mem_of_mem_drop hc)

theorem Upward.clip {b : Nat} (hb : b ≤ e.text.length) (limit : Nat) :
    Upward (Scan.clip limit (e.sub a b)).kept := by
  obtain ⟨wf, upward⟩ := up
  have part := Excerpt.wellFormed_sub wf ha hb
  refine ⟨Scan.wellFormed_clip part limit, ?_⟩
  intro c hc
  rw [Scan.text_clip part, Excerpt.text_sub wf ha hb] at hc
  exact upward c (List.mem_of_mem_drop (List.mem_of_mem_take (List.mem_of_mem_take hc)))

end Upward

namespace Env

open Evaluation

section Two
variable {env : Env} {n : Nat} (positive : 1 ≤ n)
  (below : (Width.bits n).le env.settings.width = true)
include positive below

theorem wrap_alike {a b : Int} (h : signed n a = signed n b) :
    Alike (Narrows n) ((env.atWidth (.bits n)).wrap a) (env.wrap b) := by
  have narrow : (env.atWidth (.bits n)).wrap a = pure (signed n a) := by
    simp only [wrap, atWidth, Width.wrap?_bits]
  rw [narrow, wrap_eq (Width.positive_of_le positive below)]
  apply Alike.pure
  rw [Narrows, signed_wrapped below, h]

theorem combine_alike {op : Operator} (upward : op.symbol ∉ Operator.downward) {a b a' b' : Int}
    (ha : Narrows n a a') (hb : Narrows n b b') (shown : Excerpt) :
    Alike (Narrows n) ((env.atWidth (.bits n)).combine op a b shown)
      (env.combine op a' b' shown) := by
  simp only [combine]
  apply Alike.bind (Alike.combined _ _ _ _ _ _)
  intro _ _ _
  subst ha hb
  -- Wrapped values are equal if their bit vectors of the small width are.
  cases op with
  | minus =>
    apply wrap_alike positive below
    rw [signed_eq_signed_iff, ofInt_sub, ofInt_sub, ofInt_signed, ofInt_signed]
  | plus =>
    apply wrap_alike positive below
    rw [signed_eq_signed_iff, BitVec.ofInt_add, BitVec.ofInt_add, ofInt_signed, ofInt_signed]
  | times =>
    apply wrap_alike positive below
    rw [signed_eq_signed_iff, BitVec.ofInt_mul, BitVec.ofInt_mul, ofInt_signed, ofInt_signed]
  | or =>
    apply wrap_alike positive below
    rw [signed_eq_signed_iff, ofInt_or, ofInt_or, ofInt_signed, ofInt_signed]
  | and =>
    apply wrap_alike positive below
    rw [signed_eq_signed_iff, ofInt_and, ofInt_and, ofInt_signed, ofInt_signed]
  | xor =>
    apply wrap_alike positive below
    rw [signed_eq_signed_iff, ofInt_xor, ofInt_xor, ofInt_signed, ofInt_signed]
  | complement =>
    apply wrap_alike positive below
    rw [signed_eq_signed_iff, ofInt_not, ofInt_not, ofInt_signed]
  | divide => exact absurd (by decide) upward
  | modulo => exact absurd (by decide) upward
  | shiftLeft => exact absurd (by decide) upward
  | shiftRight => exact absurd (by decide) upward

theorem lookup_alike (token : Excerpt) {v w : Int} (h : Narrows n v w) :
    Alike (Narrows n) ((env.atWidth (.bits n)).lookup token v) (env.lookup token w) := by
  simp only [lookup, atWidth]
  cases env.symbols (token.text.take env.settings.symbolSize) with
  | some known => exact wrap_alike positive below rfl
  | none =>
    apply Alike.bind (Alike.report _ _)
    intro _ _ _
    exact Alike.pure h

theorem wordValue_alike (token : Excerpt) {v w : Int} (h : Narrows n v w) :
    Alike (Narrows n) ((env.atWidth (.bits n)).wordValue token v) (env.wordValue token w) := by
  simp only [wordValue]
  cases Token.ofText token.text with
  | operator op => exact Alike.pure h
  | numeral r => exact wrap_alike positive below rfl
  | name =>
    by_cases mark : token.text = counterMark
    · rw [if_pos mark, if_pos mark]
      apply Alike.bind (Alike.readCounter rfl)
      rintro here _ rfl
      exact wrap_alike positive below rfl
    · rw [if_neg mark, if_neg mark]
      exact lookup_alike positive below token h

end Two

theorem reportOverlong_alike (env : Env) (w : Width) (overlong : Option Excerpt) :
    Alike (fun _ _ => True) ((env.atWidth w).reportOverlong overlong)
      (env.reportOverlong overlong) := by
  cases overlong with
  | none => exact Alike.pure trivial
  | some e => exact Alike.report _ _

theorem reportUnended_alike (unended : Option Excerpt) :
    Alike (fun _ _ => True) (reportUnended unended) (reportUnended unended) := by
  cases unended with
  | none => exact Alike.pure trivial
  | some e => exact Alike.report _ _

/-- From values so far that agree in their lowest bits, two descents stay alike. -/
theorem descend_alike {env : Env} {n : Nat} (positive : 1 ≤ n)
    (below : (Width.bits n).le env.settings.width = true) {e : Excerpt} (up : Upward e) {v w : Int}
    (h : Narrows n v w) :
    Alike (Narrows n) ((env.atWidth (.bits n)).descend v e) (env.descend w e) := by
  fun_induction env.descend w e generalizing v with
  | case1 value e remains chars =>
    rw [descend_nil v up.1 chars]
    exact Alike.pure h
  | case2 value e remains c rest chars blank ih =>
    rw [descend_cons v up.1 chars, if_pos blank]
    exact ih (up.tail (by rw [chars]; simp)) h
  | case3 value e remains rest closes chars notBlank =>
    have closes' : Scan.groupLength? (env.atWidth (.bits n)).settings.nested 0 rest = none := closes
    rw [descend_cons v up.1 chars, if_neg notBlank, if_pos rfl, closes']
    apply Alike.bind (Alike.report _ _)
    intro _ _ _
    exact Alike.pure h
  | case4 value e remains rest m closes body chars notBlank ihBody ihRest =>
    have closes' : Scan.groupLength? (env.atWidth (.bits n)).settings.nested 0 rest = some m :=
      closes
    have inside := Scan.lt_length_of_groupLength? closes
    have room := Excerpt.length_text_cons chars
    rw [descend_cons v up.1 chars, if_neg notBlank, if_pos rfl, closes']
    apply Alike.bind (reportOverlong_alike env _ _)
    intro _ _ _
    apply Alike.bind (ihBody (up.clip (by omega) (by omega) _) (narrows_zero n))
    intro inner inner' hi
    exact ihRest inner' (up.tail (by omega)) hi
  | case5 value e remains rest m body closed chars notBlank notOpen =>
    rename_i ih
    have quote : env.settings.delimiter = (env.atWidth (.bits n)).settings.delimiter := rfl
    have inside := Scan.length_stringChars_le env.settings.delimiter rest
    have room := Excerpt.length_text_cons chars
    have next : (if closed then m + 2 else m + 1) ≤ e.text.length := by
      split
      · rename_i ends
        have delimiter := (List.getElem?_eq_some_iff.mp ends).1
        omega
      · omega
    simp only [dite_eq_ite] at ih
    rw [descend_cons v up.1 chars, if_neg notBlank, if_neg notOpen, if_pos quote]
    apply Alike.bind (reportUnended_alike _)
    intro _ _ _
    apply Alike.bind (reportOverlong_alike env _ _)
    intro _ _ _
    apply Alike.bind (wrap_alike positive below rfl)
    intro packed packed' hp
    exact ih packed' (up.tail next) hp
  | case6 value e remains c rest chars notBlank notOpen notQuote m word ihRight =>
    rename_i ihNext
    have quote : ¬c = (env.atWidth (.bits n)).settings.delimiter := notQuote
    have inside := Scan.wordLength_le c rest
    have room := Excerpt.length_text_cons chars
    have behind : Upward (e.tail (m + 1)) := up.tail (by omega)
    have here : Upward word.kept := up.clip (Nat.zero_le _) (by omega) _
    rw [descend_cons v up.1 chars, if_neg notBlank, if_neg notOpen, if_neg quote]
    apply Alike.bind (reportOverlong_alike env _ _)
    intro _ _ _
    have cut : Scan.clip (env.atWidth (.bits n)).settings.maxLength
        (e.sub 0 (1 + Scan.wordLength c rest)) = word := rfl
    simp only [cut]
    cases kind : Token.ofText word.kept.text with
    | operator op =>
      apply Alike.bind (ihRight behind (narrows_zero n))
      intro right right' hr
      have known := here.2 _ (Token.symbol_mem_of_ofText kind)
      exact combine_alike positive below known h hr _
    | numeral r =>
      apply Alike.bind (wordValue_alike positive below word.kept h)
      intro next next' hn
      exact ihNext next' behind hn
    | name =>
      apply Alike.bind (wordValue_alike positive below word.kept h)
      intro next next' hn
      exact ihNext next' behind hn
  | case7 value e remains =>
    rw [descend_of_length v (by omega)]
    exact Alike.pure h

/-- Without operators that do not work upward, the value at a small width is the value at a larger
one, wrapped to the small one, and the problems are the same. -/
theorem evaluate_atWidth {env : Env} {n : Nat} (positive : 1 ≤ n)
    (below : (Width.bits n).le env.settings.width = true) {e : Excerpt} (wf : e.WellFormed)
    (upward : ∀ c ∈ e.text, c ∉ Operator.downward) (k : Nat) :
    ∃ narrow wide, Yields ((env.atWidth (.bits n)).evaluate e) k narrow ∧
      Yields (env.evaluate e) k wide ∧ narrow.value = signed n wide.value ∧
      problemsOf narrow.events = problemsOf wide.events ∧ narrow.reads = wide.reads := by
  rw [evaluate_eq_descend _ wf, evaluate_eq_descend _ wf]
  exact descend_alike positive below ⟨wf, upward⟩ (narrows_zero n) k

/-- The width of a byte against that of a word, on a text that is broken off. -/
theorem evaluate_atWidth_byte :
    let env : Env := ⟨Settings.default, fun _ => none, fun k => 1000 + k⟩
    let e := Excerpt.ofText "200*3-~($ & 'ab'|(X".toList
    1 ≤ 8 ∧ (Width.bits (8 : Nat)).le env.settings.width = true ∧ e.WellFormed ∧
      (∀ c ∈ e.text, c ∉ Operator.downward) ∧
      ∃ narrow wide, Yields ((env.atWidth (.bits (8 : Nat))).evaluate e) 0 narrow ∧
        Yields (env.evaluate e) 0 wide ∧ narrow.value = signed 8 wide.value ∧
        problemsOf narrow.events = problemsOf wide.events ∧ narrow.reads = wide.reads := by
  intro env e
  have wf : e.WellFormed := Excerpt.wellFormed_ofText _
  have below : (Width.bits (8 : Nat)).le env.settings.width = true := by decide
  have upward : ∀ c ∈ e.text, c ∉ Operator.downward := by
    have none : "200*3-~($ & 'ab'|(X".toList.all (fun c => !Operator.downward.contains c) = true := by
      decide
    rw [Excerpt.text_ofText]
    intro c hc
    simpa using List.all_eq_true.mp none c hc
  exact ⟨by decide, below, wf, upward, evaluate_atWidth (by decide) below wf upward 0⟩

end Env

end AsmOperand
