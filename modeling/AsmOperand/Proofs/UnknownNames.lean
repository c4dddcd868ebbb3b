import AsmOperand.Proofs.Blanking

/-!
# Unknown names

A name without a value costs its own reports and nothing else. The operand comes to what it comes to
with spaces in the place of the word: the same value or the same fault, as many readings of the
location counter, and all other problems and steps in the same order. It does not matter how deep in
parentheses the word stands, what is combined around it, or what was cut off.

A word that holds a parenthesis is left out here. Other words may be in a group by that parenthesis.
-/

namespace AsmOperand

/-- Each time the evaluation reports an unknown name, it could do without: one of the evaluations
that `N` relates to the word ends alike, but for this report and the one on the word's length. -/
def Spares {α : Type} (env : Env) (m : Evaluation α)
    (N : Option Excerpt → Excerpt → Evaluation α → Prop) : Prop :=
  ∀ k, ∃ x, EndsAs m k x ∧ ∀ before name shown after,
    x.events = before ++ .problem (.undefinedSymbol name) shown :: after →
      ∃ overlong others n, N overlong shown n ∧ before = others ++ env.overlongEvents overlong ∧
        EndsAs n k ⟨x.result, others ++ after, x.reads⟩

/-- What stands in a list of two parts stands in one of them. -/
theorem split_append {α : Type} {xs ys before after : List α} {a : α}
    (h : xs ++ ys = before ++ a :: after) :
    (∃ rest, xs = before ++ a :: rest ∧ after = rest ++ ys) ∨
      ∃ start, before = xs ++ start ∧ ys = start ++ a :: after := by
  rcases List.append_eq_append_iff.mp h with ⟨start, rfl, behind⟩ | ⟨rest, rfl, behind⟩
  · exact .inr ⟨start, rfl, behind⟩
  cases rest with
  | nil => exact .inr ⟨[], by simp, behind.symm⟩
  | cons b rest =>
    obtain ⟨rfl, rfl⟩ := List.cons.inj behind
    exact .inl ⟨rest, rfl, rfl⟩

namespace Spares

variable {α β : Type} {env : Env} {m : Evaluation α} {f : α → Evaluation β}

/-- Nothing is to be omitted where every name is known. -/
theorem of_knows (h : Knows m) (N : Option Excerpt → Excerpt → Evaluation α → Prop) :
    Spares env m N := by
  intro k
  obtain ⟨x, ends, known⟩ := h k
  refine ⟨x, ends, ?_⟩
  intro before name shown after split
  exact absurd (split ▸ List.mem_append_right before List.mem_cons_self) (known name shown)

theorem bind {M : Option Excerpt → Excerpt → Evaluation α → Prop}
    {F : Option Excerpt → Excerpt → (α → Evaluation β) → Prop}
    {N : Option Excerpt → Excerpt → Evaluation β → Prop}
    (first : Spares env m M) (second : ∀ a, Spares env (f a) fun overlong shown n =>
      ∃ g, F overlong shown g ∧ n = g a)
    (inFirst : ∀ overlong shown n, M overlong shown n → N overlong shown (n >>= f))
    (inSecond : ∀ overlong shown g, F overlong shown g → N overlong shown (m >>= g)) :
    Spares env (m >>= f) N := by
  intro k
  obtain ⟨⟨result, es, j⟩, here, spares⟩ := first k
  cases result with
  | error e =>
    refine ⟨_, here.bind_error, ?_⟩
    intro before name shown after split
    obtain ⟨overlong, others, n, related, events, ends⟩ := spares before name shown after split
    exact ⟨overlong, others, _, inFirst _ _ _ related, events, ends.bind_error⟩
  | ok a =>
    obtain ⟨x, rest, sparesRest⟩ := second a j
    refine ⟨_, here.bind rest, ?_⟩
    intro before name shown after split
    rcases split_append split with ⟨later, inEs, rfl⟩ | ⟨start, rfl, inRest⟩
    · obtain ⟨overlong, others, n, related, events, ends⟩ := spares before name shown later inEs
      refine ⟨overlong, others, _, inFirst _ _ _ related, events, ?_⟩
      have both := EndsAs.bind ends rest
      rwa [List.append_assoc] at both
    · obtain ⟨overlong, others, n, ⟨g, related, rfl⟩, events, ends⟩ :=
        sparesRest start name shown after inRest
      refine ⟨overlong, es ++ others, _, inSecond _ _ _ related, ?_, ?_⟩
      · rw [events, List.append_assoc]
      · have both := EndsAs.bind here ends
        rwa [← List.append_assoc] at both

/-- Behind what asks for no name, everything is as it is by itself. -/
theorem after {n : Evaluation β} {N : Option Excerpt → Excerpt → Evaluation β → Prop}
    (first : Knows m) (second : Spares env n fun overlong shown n' => N overlong shown (do
      let _ ← m
      n')) : Spares env (do
      let _ ← m
      n) N := by
  apply bind (f := fun _ => n) (of_knows first fun _ _ _ => False)
    (F := fun overlong shown g => ∃ n', g = (fun _ => n') ∧ N overlong shown (m >>= g))
  · intro _ k
    obtain ⟨x, ends, spares⟩ := second k
    refine ⟨x, ends, ?_⟩
    intro before name shown after split
    obtain ⟨overlong, others, n', related, events, ends'⟩ := spares before name shown after split
    exact ⟨overlong, others, n', ⟨_, ⟨n', rfl, related⟩, rfl⟩, events, ends'⟩
  · intro _ _ _ never
    exact never.elim
  · rintro _ _ _ ⟨_, rfl, related⟩
    exact related

end Spares

/-- The passes over what a scan is without one of its words. -/
def Env.PassesWithout (env : Env) (s : Scan) (overlong : Option Excerpt) (token : Excerpt)
    (g : Int → Evaluation Int) : Prop :=
  ∃ s', Scan.Omits overlong token s s' ∧ g = env.pass s' []

namespace Env

variable (env : Env)

/-- An unknown name leaves the value so far, as if there was no word. -/
theorem wordValue_spares (overlong : Option Excerpt) (token : Excerpt) (value : Int) :
    Spares env (do
        env.reportOverlong overlong
        env.wordValue token value) fun long shown n =>
      long = overlong ∧ shown = token ∧ n = pure value := by
  have knows {m : Evaluation Int} (h : Knows m) : Knows (do
      env.reportOverlong overlong
      m) := (env.reportOverlong_knows overlong).bind fun _ => h
  cases kind : Token.ofText token.text with
  | operator op =>
    simp only [wordValue, kind]
    exact .of_knows (knows (Knows.pure value)) _
  | numeral r =>
    simp only [wordValue, kind]
    exact .of_knows (knows (env.wrap_knows _)) _
  | name =>
    by_cases mark : token.text = counterMark
    · simp only [wordValue, kind, if_pos mark]
      exact .of_knows (knows ((Knows.readCounter env).bind env.wrap_knows)) _
    cases symbol : env.symbols (token.text.take env.settings.symbolSize) with
    | some v =>
      simp only [wordValue, kind, if_neg mark, lookup, symbol]
      exact .of_knows (knows (env.wrap_knows v)) _
    | none =>
      intro k
      have ends := EndsAs.bind (f := fun _ => env.lookup token value)
        (env.reportOverlong_ends overlong k) (env.lookup_ends_unknown value symbol k)
      refine ⟨_, by simpa only [wordValue, kind, if_neg mark] using ends, ?_⟩
      intro before name shown after split
      -- The report on the length is no report on a name, so this one is the last.
      rcases split_append split with ⟨later, inLength, _⟩ | ⟨start, rfl, inName⟩
      · have reported : .problem (.undefinedSymbol name) shown ∈ env.overlongEvents overlong :=
          inLength ▸ List.mem_append_right before List.mem_cons_self
        obtain ⟨_, _, same⟩ := List.mem_map.mp reported
        cases same
      · obtain ⟨rfl, rfl, rfl⟩ : start = [] ∧ token = shown ∧ after = [] := by
          cases start with
          | nil =>
            obtain ⟨same, last⟩ := List.cons.inj inName
            cases same
            exact ⟨rfl, rfl, last.symm⟩
          | cons e start => simp at inName
        exact ⟨overlong, [], _, ⟨rfl, rfl, rfl⟩, List.append_nil _, EndsAs.pure value k⟩

/-- A pass reports an unknown name for one of its words, and goes on as if it was not there. -/
theorem pass_spares (s : Scan) (value : Int) :
    Spares env (env.pass s [] value) fun overlong token n =>
      ∃ g, env.PassesWithout s overlong token g ∧ n = g value := by
  induction s generalizing value with
  | done => exact .of_knows (Knows.pure value) _
  | unclosed opened =>
    exact .of_knows ((Knows.report (by simp) opened).bind fun _ => Knows.pure value) _
  | group long body rest ihBody ihRest =>
    apply Spares.after (env.reportOverlong_knows long)
    apply Spares.bind (ihBody 0) ihRest
    · rintro _ _ _ ⟨_, ⟨body', omits, rfl⟩, rfl⟩
      exact ⟨_, ⟨.group long body' rest, .body long rest omits, rfl⟩, rfl⟩
    · rintro _ _ _ ⟨rest', omits, rfl⟩
      exact ⟨_, ⟨.group long body rest', .group long body omits, rfl⟩, rfl⟩
  | quoted unended long chars rest ih =>
    rw [pass_quoted]
    apply Spares.after (reportUnended_knows unended)
    apply Spares.after (env.reportOverlong_knows long)
    apply Spares.bind (.of_knows (env.wrap_knows _) fun _ _ _ => False) ih
    · intro _ _ _ never
      exact never.elim
    · rintro _ _ _ ⟨rest', omits, rfl⟩
      exact ⟨_, ⟨_, .quoted unended long chars omits, rfl⟩,
        (env.pass_quoted long rest' [] value unended chars).symm⟩
  | word long token rest ih =>
    by_cases operator : ∃ op, Token.ofText token.text = .operator op
    · obtain ⟨op, kind⟩ := operator
      rw [env.pass_operator long rest value kind]
      apply Spares.after (env.reportOverlong_knows long)
      apply Spares.bind (F := fun _ _ _ => False) (ih 0)
      · exact fun right => .of_knows (env.combine_knows op value right token) _
      · rintro _ _ _ ⟨_, ⟨rest', omits, rfl⟩, rfl⟩
        exact ⟨_, ⟨_, .word long token omits, rfl⟩, (env.pass_operator long rest' value kind).symm⟩
      · intro _ _ _ never
        exact never.elim
    · have notOperator : ∀ op, Token.ofText token.text ≠ .operator op := not_exists.mp operator
      have step (rest : Scan) : env.pass (.word long token rest) [] value = (do
          env.reportOverlong long
          env.wordValue token value) >>= env.pass rest [] := by
        rw [env.pass_wordValue long rest [] value notOperator, bind_assoc]
      rw [step]
      apply Spares.bind (env.wordValue_spares long token value) ih
      · rintro _ _ _ ⟨rfl, rfl, rfl⟩
        exact ⟨_, ⟨rest, .here rest, rfl⟩, pure_bind value _⟩
      · rintro _ _ _ ⟨rest', omits, rfl⟩
        exact ⟨_, ⟨_, .word long token omits, rfl⟩, (step rest').symm⟩

/-- Each report of an unknown name is of some word. -/
theorem evaluate_blanked {e : Excerpt} (wf : e.WellFormed) (k : Nat) :
    ∃ x, EndsAs (env.evaluate e) k x ∧ ∀ before name shown after,
      x.events = before ++ .problem (.undefinedSymbol name) shown :: after →
        ∃ word ∈ (e.scan env.settings).words, ∃ others,
          (Scan.clip env.settings.maxLength word).kept = shown ∧
          before = others ++
            env.overlongEvents (Scan.clip env.settings.maxLength word).overlong ∧
          ((∀ c ∈ word.text, c ≠ '(' ∧ c ≠ ')') →
            EndsAs (env.evaluate (e.onLine word.blankedLine)) k ⟨x.result,
              (others ++ after).map (Event.shownAt (Excerpt.onLine word.blankedLine)),
              x.reads⟩) := by
  obtain ⟨x, ends, spares⟩ := env.pass_spares (e.scan env.settings) 0 k
  rw [evaluate_eq_pass env wf]
  refine ⟨x, ends, ?_⟩
  intro before name shown after split
  obtain ⟨overlong, others, _, ⟨_, ⟨s', omits, rfl⟩, rfl⟩, events, without⟩ :=
    spares before name shown after split
  obtain ⟨word, whole, erased⟩ := Scan.erased_of_omits env.settings wf List.drop_zero omits
  have listed := Scan.mem_words_of_omits omits
  have same := Scan.getD_clip env.settings.maxLength word
  rw [whole] at same
  rw [same] at listed
  refine ⟨word, listed, others, by rw [whole], by rw [events, whole], ?_⟩
  intro plain
  obtain ⟨a, b, _, _, _, part⟩ := erased.part
  have same : word.line = e.line := by rw [part, Excerpt.sub, Excerpt.withSpan]
  have wf' := Excerpt.wellFormed_onLine_blanked wf word same
  have scans := erased.scan plain
  rw [List.drop_zero] at scans
  obtain ⟨y, alone, blanked⟩ :=
    env.pass_relocates (Excerpt.relocation_onLine word.blankedLine) scans 0 k
  obtain rfl := alone.unique without
  rw [evaluate_eq_pass env wf']
  exact blanked

/-- Eight characters of `LONGLABEL` count. Made blank, it takes both of its reports with it. -/
theorem evaluate_blanked_label :
    let env : Env := ⟨{ Settings.default with maxLength := 8, maxLength_pos := by decide },
      fun _ => none, fun k => k⟩
    let e : Excerpt := ⟨"test.asm", some 2, " LD 1+LONGLABEL-(X)".toList, 4, 19⟩
    let blanks := " LD 1+         -(X)".toList
    let after : List Event := [.problem (.undefinedSymbol ['X']) (e.sub 13 14),
      .combined 0 .minus 0, .combined 1 .plus 0]
    e.WellFormed ∧
      EndsAs (env.evaluate e) 0 ⟨.ok 1, [.problem (.tooLong 9 8) (e.sub 2 11)] ++
        .problem (.undefinedSymbol "LONGLABE".toList) (e.sub 2 10) :: after, 0⟩ ∧
      EndsAs (env.evaluate (e.onLine blanks)) 0
        ⟨.ok 1, after.map (Event.shownAt (Excerpt.onLine blanks)), 0⟩ := by
  intro env e blanks after
  have wf : e.WellFormed := by decide
  obtain ⟨x, ends, spares⟩ := evaluate_blanked env wf 0
  have known : outcome? (env.evaluate e) 0 = some ⟨1, [.problem (.tooLong 9 8) (e.sub 2 11)] ++
      .problem (.undefinedSymbol "LONGLABE".toList) (e.sub 2 10) :: after, 0⟩ := by
    decide +kernel
  obtain rfl := ends.eq_of_outcome? known
  refine ⟨wf, ends, ?_⟩
  obtain ⟨word, listed, others, kept, before, blanked⟩ :=
    spares [.problem (.tooLong 9 8) (e.sub 2 11)] "LONGLABE".toList (e.sub 2 10) after rfl
  have words : (e.scan env.settings).words =
      [e.sub 0 1, e.sub 1 2, e.sub 2 11, e.sub 11 12, e.sub 13 14] := by decide +kernel
  -- Only one of the words starts where the report is shown.
  obtain rfl : word = e.sub 2 11 := by
    simp only [words, List.mem_cons, List.not_mem_nil, or_false] at listed
    rcases listed with rfl | rfl | rfl | rfl | rfl
    · exact absurd kept (by decide)
    · exact absurd kept (by decide)
    · rfl
    · exact absurd kept (by decide)
    · exact absurd kept (by decide)
  have long : env.overlongEvents (Scan.clip env.settings.maxLength (e.sub 2 11)).overlong =
      [.problem (.tooLong 9 8) (e.sub 2 11)] := by decide
  have line : (e.sub 2 11).blankedLine = blanks := by decide
  have text : (e.sub 2 11).text = "LONGLABEL".toList := by decide
  have plain : ∀ c ∈ (e.sub 2 11).text, c ≠ '(' ∧ c ≠ ')' := by simp [text]
  rw [long] at before
  obtain rfl : others = [] := List.self_eq_append_left.mp before
  have without := blanked plain
  rw [line] at without
  exact without

end Env

end AsmOperand
