import AsmOperand.Proofs.Diagnostics

/-!
# Slices of an excerpt

Slicing an excerpt is slicing its text. A slice of a text is described here by positions alone: it
has the characters that stand at the one bound or behind it, and before the other. A bound below
zero counts from the end, and a missing one bounds nothing. Bounds may lie outside the text or cross
each other; they are not moved into it first, as the excerpt does.

Cuts may follow each other. One that is refused leaves the excerpt as it is.
-/

namespace AsmOperand

namespace Text

/-- The position that a signed one stands for in a text of `n` characters. It may lie outside. -/
def position (n : Nat) (i : Int) : Int := if i < 0 then i + n else i

/-- Position `p` of `n` lies between the bounds that there are. -/
def Between (n : Nat) (a b : Option Int) (p : Nat) : Prop :=
  (∀ i ∈ a, position n i ≤ p) ∧ ∀ i ∈ b, p < position n i

instance (n : Nat) (a b : Option Int) (p : Nat) : Decidable (Between n a b p) :=
  inferInstanceAs (Decidable (_ ∧ _))

/-- The characters that stand between two bounds. -/
def between (t : Text) (a b : Option Int) : Text :=
  (t.zipIdx.filter fun c => Between t.length a b c.2).map Prod.fst

/-- The character at a position, if there is one. -/
def charAt? (t : Text) (i : Int) : Option Char :=
  if position t.length i < 0 then none else t[(position t.length i).toNat]?

example : between "LABEL".toList (some (-4)) (some 9) = "ABEL".toList ∧
    between "LABEL".toList (some (-9)) (some (-2)) = "LAB".toList ∧
    between "LABEL".toList (some 3) (some 1) = [] ∧
    between "LABEL".toList none (some 2) = "LA".toList := by decide

section Column
variable {n p : Nat} (inside : p < n) (i : Int)
include inside

theorem position_le_iff : position n i ≤ p ↔ column n i ≤ p := by
  simp only [position, column]
  split <;> omega

theorem lt_position_iff : p < position n i ↔ p < column n i := by
  simp only [position, column]
  split <;> omega

end Column

/-- What stands before position `hi`, where the first character has position `k`. -/
theorem filter_lt_zipIdx (t : Text) (k hi : Nat) :
    (t.zipIdx k).filter (fun c => c.2 < hi) = (t.take (hi - k)).zipIdx k := by
  induction t generalizing k with
  | nil => rw [List.take_nil]; rfl
  | cons c rest ih =>
    rw [List.zipIdx_cons]
    rcases Nat.lt_or_ge k hi with before | behind
    · have columns : hi - k = hi - (k + 1) + 1 := by omega
      rw [List.filter_cons_of_pos (by simpa using before), ih, columns, List.take_succ_cons,
        List.zipIdx_cons]
    · have none : hi - (k + 1) = 0 := by omega
      rw [List.filter_cons_of_neg (by simpa using behind), ih, none, Nat.sub_eq_zero_of_le behind]
      rfl

/-- What stands at position `lo` or behind it. -/
theorem filter_le_zipIdx (t : Text) (k lo : Nat) :
    ((t.zipIdx k).filter fun c => lo ≤ c.2).map Prod.fst = t.drop (lo - k) := by
  induction t generalizing k with
  | nil => rw [List.drop_nil]; rfl
  | cons c rest ih =>
    rw [List.zipIdx_cons]
    rcases Nat.lt_or_ge k lo with before | behind
    · have columns : lo - k = lo - (k + 1) + 1 := by omega
      rw [List.filter_cons_of_neg (by simpa using before), ih, columns, List.drop_succ_cons]
    · have none : lo - (k + 1) = 0 := by omega
      rw [List.filter_cons_of_pos (by simpa using behind), List.map_cons, ih, none,
        Nat.sub_eq_zero_of_le behind]
      rfl

/-- Between two bounds lie the characters that are left when both have been moved into the text. -/
theorem between_eq (t : Text) (a b : Option Int) :
    t.between a b = (t.drop ((a.map (column t.length)).getD 0)).take
      ((b.map (column t.length)).getD t.length - (a.map (column t.length)).getD 0) := by
  have stretch := filter_le_zipIdx (t.take ((b.map (column t.length)).getD t.length)) 0
    ((a.map (column t.length)).getD 0)
  have before := filter_lt_zipIdx t 0 ((b.map (column t.length)).getD t.length)
  rw [Nat.sub_zero] at stretch before
  rw [← before, List.filter_filter, List.drop_take] at stretch
  rw [← stretch, between]
  congr 1
  apply List.filter_congr
  rintro ⟨c, p⟩ known
  have inside : p < t.length := List.snd_lt_of_mem_zipIdx known
  rw [← Bool.decide_and, decide_eq_decide]
  apply and_congr
  · cases a with
    | none => simp
    | some i => simpa using position_le_iff inside i
  · cases b with
    | none => simpa using inside
    | some i => simpa using lt_position_iff inside i

end Text

namespace Excerpt

/-- What can be asked of an excerpt: one of its characters or a slice of them. -/
inductive Cut where
  | character (i : Int)
  | characters (a b step : Option Int)
  deriving DecidableEq, Repr

namespace Cut

/-- The excerpt that a cut makes of another. -/
def part? (e : Excerpt) : Cut → Except CutError Excerpt
  | character i => e.at? i
  | characters a b step => e.slice? a b step

/-- What the cut makes of a text, where excerpts can be cut so. -/
def spelled? (t : Text) : Cut → Option Text
  | character i => (t.charAt? i).map fun c => [c]
  | characters a b step => if step = none ∨ step = some 1 then some (t.between a b) else none

end Cut

/-- What is left after some cuts, each made of what the one before it left. A cut that is refused
changes nothing. -/
def cutAll (e : Excerpt) : List Cut → Excerpt
  | [] => e
  | c :: cuts =>
    match c.part? e with
    | .ok part => part.cutAll cuts
    | .error _ => e.cutAll cuts

/-- The text that is left after the cuts. -/
def spelledAll (t : Text) : List Cut → Text
  | [] => t
  | c :: cuts => spelledAll ((c.spelled? t).getD t) cuts

theorem Within.trans {e part whole : Excerpt} (h : e.Within part) (k : part.Within whole) :
    e.Within whole :=
  ⟨h.path.trans k.path, h.lineNumber.trans k.lineNumber, h.line.trans k.line,
    Int.le_trans k.start h.start, h.forward, Int.le_trans h.stop k.stop⟩

/-- A part of an excerpt on its line is on this line too. -/
theorem Within.wellFormed {e whole : Excerpt} (within : e.Within whole) (wf : whole.WellFormed) :
    e.WellFormed := by
  obtain ⟨positive, forward, inside⟩ := wf
  have line := congrArg List.length within.line
  have start := within.start
  have stop := within.stop
  exact ⟨by omega, within.forward, by omega⟩

section Cuts
variable {e : Excerpt} (wf : e.WellFormed)
include wf

theorem size?_eq : e.size? = .ok (e.text.length : Int) := by
  rw [size?, isBackward_eq_false wf, length_eq wf]
  rfl

theorem exists_slice (a b : Option Int) {step : Option Int} (one : step = none ∨ step = some 1) :
    ∃ part, e.slice? a b step = .ok part ∧ part.Within e ∧ part.text = e.text.between a b := by
  have size : e.length.toNat = e.text.length := by rw [length_eq wf, Int.toNat_natCast]
  have inside (i : Option Int) {k : Nat} (hk : k ≤ e.text.length) :
      (i.map (Text.column e.text.length)).getD k ≤ e.text.length := by
    cases i with
    | none => exact hk
    | some i => exact Text.column_le _ i
  have start := inside a (Nat.zero_le _)
  have stop := inside b (Nat.le_refl _)
  refine ⟨_, ?_, (within_refl wf).sub wf start stop, ?_⟩
  · rw [slice?, isBackward_eq_false wf, size]
    rcases one with rfl | rfl
    · rfl
    · rfl
  · rw [text_sub wf start stop, Text.between_eq]

omit wf in
theorem checkStep_refused {k : Int} (other : k ≠ 1) :
    checkStep (some k) = .error (if k = 0 then .zeroStep else .longStep) := by
  by_cases zero : k = 0
  · rw [checkStep, if_pos zero, if_pos zero]
  · rw [checkStep, if_neg zero, if_neg other, if_neg zero]

theorem slice?_refused (a b : Option Int) {k : Int} (other : k ≠ 1) :
    e.slice? a b (some k) = .error (if k = 0 then .zeroStep else .longStep) := by
  rw [slice?, isBackward_eq_false wf, checkStep_refused other]
  rfl

/-- An excerpt and its text agree on the position that is meant. -/
theorem at?_eq (i : Int) :
    e.at? i =
      if 0 ≤ Text.position e.text.length i ∧ Text.position e.text.length i < e.text.length then
        .ok (e.sub (Text.position e.text.length i).toNat
          ((Text.position e.text.length i).toNat + 1))
      else .error (.outOfRange i e.length) := by
  rw [at?, length_eq wf]
  rfl

theorem exists_at {i : Int} (low : -e.length ≤ i) (high : i < e.length) :
    ∃ part c, e.at? i = .ok part ∧ part.Within e ∧ e.text.charAt? i = some c ∧ part.text = [c] := by
  rw [length_eq wf] at low high
  have inside : 0 ≤ Text.position e.text.length i ∧
      Text.position e.text.length i < e.text.length := by
    rw [Text.position]
    split <;> omega
  rw [at?_eq wf, if_pos inside, Text.charAt?, if_neg (by omega)]
  obtain ⟨p, position⟩ := Int.eq_ofNat_of_zero_le inside.1
  rw [position] at inside ⊢
  have here : p < e.text.length := Int.ofNat_lt.mp inside.2
  have next : p + 1 ≤ e.text.length := here
  refine ⟨_, e.text[p], rfl, (within_refl wf).sub wf (Nat.le_of_lt here) next,
    List.getElem?_eq_getElem here, ?_⟩
  rw [Int.toNat_natCast, text_sub wf (Nat.le_of_lt here) next, Nat.add_sub_cancel_left,
    List.drop_eq_getElem_cons here, List.take_succ_cons, List.take_zero]

theorem at?_refused {i : Int} (outside : ¬(-e.length ≤ i ∧ i < e.length)) :
    e.at? i = .error (.outOfRange i e.length) ∧ e.text.charAt? i = none := by
  have beyond : Text.position e.text.length i < 0 ∨
      e.text.length ≤ Text.position e.text.length i := by
    rw [length_eq wf] at outside
    rw [Text.position]
    split <;> omega
  constructor
  · rw [at?_eq wf, if_neg (by omega)]
  · rw [Text.charAt?]
    rcases beyond with before | behind
    · rw [if_pos before]
    · rw [if_neg (by omega), List.getElem?_eq_none (by omega)]

theorem exists_at_iff (i : Int) :
    (∃ part, e.at? i = .ok part) ↔ -e.length ≤ i ∧ i < e.length := by
  constructor
  · rintro ⟨part, known⟩
    by_contra outside
    rw [(at?_refused wf outside).1] at known
    cases known
  · rintro ⟨low, high⟩
    obtain ⟨part, _, known, _⟩ := exists_at wf low high
    exact ⟨part, known⟩

/-- A cut makes of an excerpt what it makes of its text, and is refused if it makes nothing of it. -/
theorem part?_spells (c : Cut) :
    (∀ t, c.spelled? e.text = some t →
      ∃ part, c.part? e = .ok part ∧ part.Within e ∧ part.text = t) ∧
    (c.spelled? e.text = none → ∃ x, c.part? e = .error x) := by
  cases c with
  | character i =>
    by_cases inside : -e.length ≤ i ∧ i < e.length
    · obtain ⟨part, c, known, within, char, spells⟩ := exists_at wf inside.1 inside.2
      rw [Cut.spelled?, char]
      constructor
      · rintro _ ⟨⟩
        exact ⟨part, known, within, spells⟩
      · rintro ⟨⟩
    · obtain ⟨refused, none⟩ := at?_refused wf inside
      rw [Cut.spelled?, none]
      constructor
      · rintro _ ⟨⟩
      · exact fun _ => ⟨_, refused⟩
  | characters a b step =>
    by_cases one : step = none ∨ step = some 1
    · rw [Cut.spelled?, if_pos one]
      constructor
      · rintro _ ⟨⟩
        exact exists_slice wf a b one
      · rintro ⟨⟩
    · rw [Cut.spelled?, if_neg one]
      constructor
      · rintro _ ⟨⟩
      · obtain ⟨unset, other⟩ := not_or.mp one
        obtain ⟨k, rfl⟩ := Option.ne_none_iff_exists'.mp unset
        exact fun _ => ⟨_, slice?_refused wf a b fun same => other (congrArg some same)⟩

theorem cutAll_spells (cuts : List Cut) :
    (e.cutAll cuts).Within e ∧ (e.cutAll cuts).text = spelledAll e.text cuts := by
  -- Each cut is made of what is left, so the excerpt changes along the list.
  induction cuts generalizing e with
  | nil => exact ⟨within_refl wf, rfl⟩
  | cons c cuts ih =>
    obtain ⟨taken, refused⟩ := part?_spells wf c
    rw [cutAll, spelledAll]
    cases spelled : c.spelled? e.text with
    | some t =>
      obtain ⟨part, known, within, spells⟩ := taken t spelled
      obtain ⟨inside, text⟩ := ih (within.wellFormed wf)
      rw [known]
      exact ⟨inside.trans within, by rw [text, spells]; rfl⟩
    | none =>
      obtain ⟨x, known⟩ := refused spelled
      rw [known]
      exact ih wf

end Cuts

/-- Slicing an excerpt is slicing its text, and taking one character is taking it from the text.
Every slice lies within the excerpt, and there is one for all bounds; there is a character exactly
at the positions that the text has. Steps other than one are refused and change nothing. So the
excerpt and its text stay together through any number of cuts. -/
theorem cuts_spell {e : Excerpt} (wf : e.WellFormed) :
    e.size? = .ok (e.text.length : Int) ∧
    (∀ a b step, step = none ∨ step = some 1 →
      ∃ part, e.slice? a b step = .ok part ∧ part.Within e ∧ part.text = e.text.between a b) ∧
    (∀ i, (∃ part, e.at? i = .ok part) ↔ -(e.text.length : Int) ≤ i ∧ i < e.text.length) ∧
    (∀ i part, e.at? i = .ok part →
      part.Within e ∧ ∃ c, e.text.charAt? i = some c ∧ part.text = [c]) ∧
    (∀ a b k, k ≠ 1 →
      e.slice? a b (some k) = .error (if k = 0 then .zeroStep else .longStep) ∧
        ∀ cuts, e.cutAll (.characters a b (some k) :: cuts) = e.cutAll cuts) ∧
    ∀ cuts, (e.cutAll cuts).Within e ∧ (e.cutAll cuts).text = spelledAll e.text cuts := by
  refine ⟨size?_eq wf, fun a b _ one => exists_slice wf a b one, ?_, ?_, ?_, cutAll_spells wf⟩
  · rw [← length_eq wf]
    exact exists_at_iff wf
  · intro i part known
    obtain ⟨low, high⟩ := (exists_at_iff wf i).mp ⟨part, known⟩
    obtain ⟨_, c, same, within, char, spells⟩ := exists_at wf low high
    cases known.symm.trans same
    exact ⟨within, c, char, spells⟩
  · intro a b k other
    have refused := slice?_refused wf a b other
    refine ⟨refused, ?_⟩
    intro cuts
    rw [cutAll, Cut.part?, refused]

/-- Bounds from the end, bounds outside, a step of two that is passed over, and then the last
character. -/
theorem cuts_spell_label :
    let e : Excerpt := ⟨"main.asm", some 4, "ORG LABEL+1".toList, 4, 9⟩
    e.WellFormed ∧ e.size? = .ok 5 ∧ ((none : Option Int) = none ∨ (none : Option Int) = some 1) ∧
      (∃ part, e.slice? (some (-4)) (some 9) none = .ok part ∧ part.Within e ∧
        part.text = "ABEL".toList) ∧
      (∃ part, e.at? (-5) = .ok part ∧ part.text = ['L']) ∧
      (2 : Int) ≠ 1 ∧ e.slice? none none (some 2) = .error .longStep ∧
      (e.cutAll [.characters (some 1) none none, .characters none none (some 2),
        .characters none (some (-1)) (some 1), .character (-1)]).text = ['E'] := by
  intro e
  have wf : e.WellFormed := by decide
  obtain ⟨size, slices, characters, spelled, steps, cuts⟩ := cuts_spell wf
  obtain ⟨slice, sliced, within, text⟩ := slices (some (-4)) (some 9) none (.inl rfl)
  obtain ⟨first, known⟩ := (characters (-5)).mpr (by decide)
  obtain ⟨_, c, char, alone⟩ := spelled (-5) first known
  obtain rfl : 'L' = c := Option.some.inj char
  refine ⟨wf, size, .inl rfl, ⟨slice, sliced, within, text.trans (by decide)⟩,
    ⟨first, known, alone⟩, by decide, (steps none none 2 (by decide)).1, ?_⟩
  exact (cuts _).2.trans (by decide)

end Excerpt

end AsmOperand
