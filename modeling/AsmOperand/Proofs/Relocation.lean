import AsmOperand.Proofs.Endings

/-!
# Operands shown elsewhere

A pass copies the excerpts of its scan into what it writes; of the excerpts themselves it reads the
texts of words and the lengths of what was too long. Where these stay, a scan with other excerpts
leads to the same ending, shown elsewhere. A scan has other excerpts, and no other parts, if it
goes on with the same characters in an excerpt of the same length.
-/

namespace AsmOperand

/-- Excerpts are shown elsewhere: lengths stay, and parts stay parts. -/
structure Excerpt.Relocation (g : Excerpt → Excerpt) : Prop where
  sub (e : Excerpt) (a b : Nat) : g (e.sub a b) = (g e).sub a b
  length (e : Excerpt) : (g e).length = e.length

/-- The same event, shown elsewhere. -/
def Event.shownAt (g : Excerpt → Excerpt) : Event → Event
  | .problem p shown => .problem p (g shown)
  | .combined lhs op rhs => .combined lhs op rhs

def Ending.shownAt {α : Type} (g : Excerpt → Excerpt) (x : Ending α) : Ending α :=
  { x with events := x.events.map (Event.shownAt g) }

/-- The second evaluation ends as the first does, with all events shown elsewhere. -/
def Relocates {α : Type} (g : Excerpt → Excerpt) (m m' : Evaluation α) : Prop :=
  ∀ k, ∃ x, EndsAs m k x ∧ EndsAs m' k (x.shownAt g)

namespace Relocates

variable {α β : Type} (g : Excerpt → Excerpt)

theorem pure (a : α) : Relocates g (pure a) (pure a) :=
  fun k => ⟨_, EndsAs.pure a k, EndsAs.pure a k⟩

theorem report (p : Problem) (shown : Excerpt) :
    Relocates g (Evaluation.report p shown) (Evaluation.report p (g shown)) :=
  fun k => ⟨_, EndsAs.report p shown k, EndsAs.report p (g shown) k⟩

theorem readCounter (env : Env) : Relocates g env.readCounter env.readCounter :=
  fun k => ⟨_, EndsAs.readCounter env k, EndsAs.readCounter env k⟩

variable {g}

theorem bind {m m' : Evaluation α} {f f' : α → Evaluation β} (first : Relocates g m m')
    (second : ∀ a, Relocates g (f a) (f' a)) : Relocates g (m >>= f) (m' >>= f') := by
  intro k
  obtain ⟨⟨result, es, j⟩, here, here'⟩ := first k
  cases result with
  | error e => exact ⟨_, here.bind_error, here'.bind_error⟩
  | ok a =>
    obtain ⟨x, rest, rest'⟩ := second a j
    refine ⟨_, here.bind rest, ?_⟩
    have both := EndsAs.bind here' rest'
    simpa [Ending.shownAt] using both

end Relocates

namespace Scan

/-- The second scan has the same parts, with excerpts that are shown elsewhere. -/
inductive Relocated (g : Excerpt → Excerpt) : Scan → Scan → Prop where
  | done : Relocated g .done .done
  | unclosed (opened : Excerpt) : Relocated g (.unclosed opened) (.unclosed (g opened))
  | group (overlong : Option Excerpt) {body body' rest rest' : Scan}
    (inBody : Relocated g body body') (inRest : Relocated g rest rest') :
    Relocated g (.group overlong body rest) (.group (overlong.map g) body' rest')
  | quoted (unended overlong : Option Excerpt) (chars : Text) {rest rest' : Scan}
    (inRest : Relocated g rest rest') :
    Relocated g (.quoted unended overlong chars rest)
      (.quoted (unended.map g) (overlong.map g) chars rest')
  | word (overlong : Option Excerpt) {token : Excerpt} (text : (g token).text = token.text)
    {rest rest' : Scan} (inRest : Relocated g rest rest') :
    Relocated g (.word overlong token rest) (.word (overlong.map g) (g token) rest')

end Scan

namespace Env

section Steps
variable (env : Env) (g : Excerpt → Excerpt)

theorem wrap_relocates (v : Int) : Relocates g (env.wrap v) (env.wrap v) := by
  obtain ⟨result, ends⟩ := env.wrap_ends v
  exact fun k => ⟨_, ends k, ends k⟩

theorem combine_relocates (op : Operator) (lhs rhs : Int) (shown : Excerpt) :
    Relocates g (env.combine op lhs rhs shown) (env.combine op lhs rhs (g shown)) := by
  obtain ⟨result, problem, _, ends⟩ := env.combine_ends op lhs rhs
  intro k
  refine ⟨_, ends shown k, ?_⟩
  cases problem with
  | none => exact ends (g shown) k
  | some p => exact ends (g shown) k

theorem reportUnended_relocates (unended : Option Excerpt) :
    Relocates g (reportUnended unended) (reportUnended (unended.map g)) := by
  cases unended with
  | none => exact Relocates.pure g ()
  | some e => exact Relocates.report g _ e

variable {g} (relocation : Excerpt.Relocation g)

include relocation in
theorem reportOverlong_relocates (overlong : Option Excerpt) :
    Relocates g (env.reportOverlong overlong) (env.reportOverlong (overlong.map g)) := by
  cases overlong with
  | none => exact Relocates.pure g ()
  | some e =>
    rw [Option.map_some, reportOverlong, reportOverlong, relocation.length]
    exact Relocates.report g _ e

theorem wordValue_relocates {token : Excerpt} (text : (g token).text = token.text) (value : Int) :
    Relocates g (env.wordValue token value) (env.wordValue (g token) value) := by
  simp only [wordValue, lookup, text]
  cases Token.ofText token.text with
  | operator op => exact Relocates.pure g value
  | numeral r => exact env.wrap_relocates g _
  | name =>
    by_cases mark : token.text = counterMark
    · simp only [if_pos mark]
      apply Relocates.bind (Relocates.readCounter g env)
      intro here
      exact env.wrap_relocates g here
    simp only [if_neg mark]
    cases env.symbols (token.text.take env.settings.symbolSize) with
    | some v => exact env.wrap_relocates g v
    | none =>
      apply Relocates.bind (Relocates.report g _ token)
      intro _
      exact Relocates.pure g value

include relocation

/-- A pass ends as it does over a scan with other excerpts. -/
theorem pass_relocates {s s' : Scan} (h : Scan.Relocated g s s') (value : Int) :
    Relocates g (env.pass s [] value) (env.pass s' [] value) := by
  induction h generalizing value with
  | done => exact Relocates.pure g value
  | unclosed opened =>
    apply Relocates.bind (Relocates.report g _ opened)
    intro _
    exact Relocates.pure g value
  | group overlong _ _ ihBody ihRest =>
    apply Relocates.bind (env.reportOverlong_relocates relocation overlong)
    intro _
    apply Relocates.bind (ihBody 0)
    exact ihRest
  | quoted unended overlong chars _ ih =>
    rw [pass_quoted, pass_quoted]
    apply Relocates.bind (reportUnended_relocates g unended)
    intro _
    apply Relocates.bind (env.reportOverlong_relocates relocation overlong)
    intro _
    apply Relocates.bind (env.wrap_relocates g _)
    exact ih
  | word overlong text _ ih =>
    rename_i token rest rest' _
    rw [pass_word_nil, pass_word_nil, text]
    apply Relocates.bind (env.reportOverlong_relocates relocation overlong)
    intro _
    cases Token.ofText token.text with
    | operator op =>
      apply Relocates.bind (ih 0)
      intro right
      exact env.combine_relocates g op value right token
    | numeral r => exact Relocates.bind (env.wordValue_relocates text value) ih
    | name => exact Relocates.bind (env.wordValue_relocates text value) ih

end Steps

end Env

namespace Excerpt

/-- From column `i` on, the excerpt that is shown elsewhere spells what the excerpt does. -/
structure Copied (g : Excerpt → Excerpt) (e : Excerpt) (i : Nat) : Prop where
  wellFormed : e.WellFormed
  inside : (g e).WellFormed
  same : (g e).text.drop i = e.text.drop i

section Copied
variable {g : Excerpt → Excerpt} (relocation : Relocation g) {e : Excerpt} {i : Nat}

theorem Copied.text (copied : Copied g e 0) : (g e).text = e.text := by
  have same := copied.same
  rwa [List.drop_zero, List.drop_zero] at same

theorem Copied.later (copied : Copied g e i) {j : Nat} (behind : i ≤ j) : Copied g e j := by
  have more := congrArg (List.drop (j - i)) copied.same
  rw [List.drop_drop, List.drop_drop, Nat.add_sub_cancel' behind] at more
  exact ⟨copied.wellFormed, copied.inside, more⟩

include relocation

theorem Relocation.tail (e : Excerpt) (a : Nat) : g (e.tail a) = (g e).tail a := by
  rw [Excerpt.tail, relocation.sub, Excerpt.tail, relocation.length]

theorem Relocation.clip (limit : Nat) (e : Excerpt) : Scan.clip limit (g e) =
    ⟨g (Scan.clip limit e).kept, (Scan.clip limit e).overlong.map g⟩ := by
  simp only [Scan.clip, relocation.length]
  split
  · rfl
  · simp only [relocation.sub, Option.map_some]

theorem Relocation.length_text (wf : e.WellFormed) (wf' : (g e).WellFormed) :
    (g e).text.length = e.text.length := by
  have len := length_eq wf
  have len' := length_eq wf'
  have same := relocation.length e
  omega

theorem Relocation.wellFormed_sub (wf : e.WellFormed) (wf' : (g e).WellFormed) {a b : Nat}
    (ha : a ≤ e.text.length) (hb : b ≤ e.text.length) : (g (e.sub a b)).WellFormed := by
  have room := relocation.length_text wf wf'
  rw [relocation.sub]
  exact Excerpt.wellFormed_sub wf' (by omega) (by omega)

theorem Copied.sub (copied : Copied g e i) {a b : Nat} (behind : i ≤ a) (ha : a ≤ e.text.length)
    (hb : b ≤ e.text.length) : Copied g (e.sub a b) 0 := by
  obtain ⟨wf, wf', same⟩ := copied.later behind
  have room := relocation.length_text wf wf'
  refine ⟨Excerpt.wellFormed_sub wf ha hb, relocation.wellFormed_sub wf wf' ha hb, ?_⟩
  rw [relocation.sub, text_sub wf' (by omega) (by omega), text_sub wf ha hb, same]

theorem Copied.clip (copied : Copied g e 0) (limit : Nat) :
    Copied g (Scan.clip limit e).kept 0 := by
  have len := length_eq copied.wellFormed
  simp only [Scan.clip]
  split
  · exact copied
  · exact copied.sub relocation (Nat.le_refl 0) (Nat.zero_le _) (by omega)

end Copied

end Excerpt

namespace Scan

section Step
variable (s : Settings) (e : Excerpt) (i : Nat) {c : Char} {rest : Text}

theorem ofChars_blank (blank : Text.isBlank c = true) :
    ofChars s e i (c :: rest) = ofChars s e (i + 1) rest := by
  rw [ofChars, if_pos blank]

theorem ofChars_unclosed (lasts : groupLength? s.nested 0 rest = none) :
    ofChars s e i ('(' :: rest) = .unclosed (e.tail i) := by
  rw [ofChars, if_neg (by decide), if_pos rfl]
  split
  · rfl
  · rename_i closes
    rw [lasts] at closes
    cases closes

theorem ofChars_group {n : Nat} (closes : groupLength? s.nested 0 rest = some n) :
    ofChars s e i ('(' :: rest) =
      .group (clip s.maxLength (e.sub (i + 1) (i + 1 + n))).overlong
        ((clip s.maxLength (e.sub (i + 1) (i + 1 + n))).kept.scan s)
        (ofChars s e (i + n + 2) (rest.drop (n + 1))) := by
  rw [ofChars, if_neg (by decide), if_pos rfl]
  split
  · rename_i lasts
    rw [lasts] at closes
    cases closes
  · rename_i closes'
    rw [closes] at closes'
    cases closes'
    rfl

section Plain
variable (notBlank : ¬Text.isBlank c = true) (notOpen : c ≠ '(')
include notBlank notOpen

theorem ofChars_closed (quote : c = s.delimiter) {n : Nat}
    (length : (stringChars s.delimiter rest).length = n)
    (closed : rest[n]? = some s.delimiter) :
    ofChars s e i (c :: rest) =
      .quoted none (clip s.maxLength (e.sub (i + 1) (i + 1 + n))).overlong
        (clip s.maxLength (e.sub (i + 1) (i + 1 + n))).kept.text
        (ofChars s e (i + n + 2) (rest.drop (n + 1))) := by
  subst length
  rw [ofChars, if_neg notBlank, if_neg notOpen, if_pos quote]
  simp only [if_pos closed]

theorem ofChars_unended (quote : c = s.delimiter) {n : Nat}
    (length : (stringChars s.delimiter rest).length = n)
    (lasts : rest[n]? ≠ some s.delimiter) :
    ofChars s e i (c :: rest) =
      .quoted (some (e.sub i (i + 1 + n)))
        (clip s.maxLength (e.sub (i + 1) (i + 1 + n))).overlong
        (clip s.maxLength (e.sub (i + 1) (i + 1 + n))).kept.text
        (ofChars s e (i + n + 1) (rest.drop n)) := by
  subst length
  rw [ofChars, if_neg notBlank, if_neg notOpen, if_pos quote]
  simp only [if_neg lasts]

theorem ofChars_word (notQuote : c ≠ s.delimiter) {n : Nat} (length : wordLength c rest = n) :
    ofChars s e i (c :: rest) =
      .word (clip s.maxLength (e.sub i (i + 1 + n))).overlong
        (clip s.maxLength (e.sub i (i + 1 + n))).kept
        (ofChars s e (i + n + 1) (rest.drop n)) := by
  subst length
  rw [ofChars, if_neg notBlank, if_neg notOpen, if_neg notQuote]

end Plain

end Step

/-- An excerpt that is shown elsewhere is scanned into the same parts, shown elsewhere. -/
theorem relocated_ofChars (s : Settings) {g : Excerpt → Excerpt} (relocation : Excerpt.Relocation g)
    {e : Excerpt} {i : Nat} (copied : e.Copied g i) {t : Text} (ht : e.text.drop i = t) :
    Relocated g (ofChars s e i t) (ofChars s (g e) i t) := by
  have cut (e : Excerpt) (a b : Nat) : clip s.maxLength ((g e).sub a b) =
      ⟨g (clip s.maxLength (e.sub a b)).kept, (clip s.maxLength (e.sub a b)).overlong.map g⟩ := by
    rw [← relocation.sub, relocation.clip]
  fun_induction ofChars s e i t with
  | case1 e i =>
    rw [ofChars]
    exact .done
  | case2 e i c rest blank ih =>
    obtain ⟨_, _, _, next⟩ := Excerpt.start_of_drop copied.wellFormed ht
    rw [ofChars_blank s (g e) i blank]
    exact ih (copied.later (by omega)) (next 0)
  | case3 e i rest lasts notBlank =>
    rw [ofChars_unclosed s (g e) i lasts, ← relocation.tail]
    exact .unclosed _
  | case4 e i rest n closes body notBlank ihBody ihRest =>
    obtain ⟨_, _, room, next⟩ := Excerpt.start_of_drop copied.wellFormed ht
    have inside := lt_length_of_groupLength? closes
    have inBody := (copied.sub relocation (a := i + 1) (b := i + 1 + n) (by omega) (by omega)
      (by omega)).clip relocation s.maxLength
    rw [ofChars_group s (g e) i closes, cut, Excerpt.scan, inBody.text]
    exact .group _ (ihBody inBody rfl) (ihRest (copied.later (by omega)) (next (n + 1)))
  | case5 e i rest n body closed notBlank notOpen ih =>
    obtain ⟨_, _, room, next⟩ := Excerpt.start_of_drop copied.wellFormed ht
    have inside := length_stringChars_le s.delimiter rest
    have inBody := (copied.sub relocation (a := i + 1) (b := i + 1 + n) (by omega) (by omega)
      (by omega)).clip relocation s.maxLength
    rw [ofChars_closed s (g e) i notBlank notOpen rfl rfl closed, cut, inBody.text]
    exact .quoted none _ _ (ih (copied.later (by omega)) (next (n + 1)))
  | case6 e i rest n body lasts notBlank notOpen ih =>
    obtain ⟨_, _, room, next⟩ := Excerpt.start_of_drop copied.wellFormed ht
    have inside := length_stringChars_le s.delimiter rest
    have inBody := (copied.sub relocation (a := i + 1) (b := i + 1 + n) (by omega) (by omega)
      (by omega)).clip relocation s.maxLength
    rw [ofChars_unended s (g e) i notBlank notOpen rfl rfl lasts, cut, inBody.text,
      ← relocation.sub]
    exact .quoted (some _) _ _ (ih (copied.later (by omega)) (next n))
  | case7 e i c rest notBlank notOpen notQuote n token ih =>
    obtain ⟨_, _, room, next⟩ := Excerpt.start_of_drop copied.wellFormed ht
    have inside := wordLength_le c rest
    have inWord := (copied.sub relocation (a := i) (b := i + 1 + n) (by omega) (by omega)
      (by omega)).clip relocation s.maxLength
    rw [ofChars_word s (g e) i notBlank notOpen notQuote rfl, cut]
    exact .word _ inWord.text (ih (copied.later (by omega)) (next n))

end Scan

end AsmOperand
