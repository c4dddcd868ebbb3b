import AsmOperand.Command
import AsmOperand.Proofs.Definitions
import AsmOperand.Proofs.Entries
import AsmOperand.Proofs.FixedCounters
import AsmOperand.Proofs.Placement
import Mathlib.Data.List.Forall2

/-!
# What the command prints

Where the options can be used and every file can be read, the command always comes to an end. With
an error before the operands it prints nothing. Otherwise every operand gets a line of its own, and
this line is the one that the command prints for the operand alone: neither the operands before it
nor their errors bear on it, for the location counter is fixed and evaluating an operand changes no
symbol. Errors of the operands show in the exit code only.

Nothing is said here about the log, or about files that cannot be read to their end.
-/

namespace AsmOperand

theorem Settings.width_of_ofFields {symbolSize maxLength : Int} {delimiter : Text} {width : Width}
    {nested : Bool} {s : Settings}
    (made : ofFields symbolSize maxLength delimiter width nested = .ok s) : s.width = width := by
  simp only [ofFields] at made
  split at made
  · cases made
  split at made
  · cases made
  split at made
  · cases made
  split at made
  · cases made
  · cases made
    rfl

theorem eq_ok_of_toOption {ε α : Type} {x : Except ε α} {a : α} (h : x.toOption = some a) :
    x = .ok a := by
  cases x with
  | error e => cases h
  | ok b =>
    cases h
    rfl

namespace Command

theorem run_lift {α : Type} {work : Work α} {w later : Workplace} {a : α}
    (h : work.run w = .ok a later) : (lift work).run w = .ok a later := by
  show lift work w = _
  rw [lift, h]

theorem lift_grows {α : Type} {work : Work α} (grows : Moves Workplace.Grows work) :
    Moves Workplace.Grows (lift work) := by
  intro w
  have here := grows w
  show w.Grows (finalState (lift work w))
  rw [lift]
  cases ends : work.run w with
  | ok a later =>
    rw [ends] at here
    exact here
  | error f later =>
    rw [ends] at here
    exact here

/-- Every file can be read to its end, unless it cannot be opened. -/
def Readable (files : List File) : Prop :=
  ∀ f ∈ files, ∀ bs, f.content = .bytes bs → (Utf8.read bs).isWhole = true

namespace Request

variable (r : Request)

/-- Where the command starts: nothing is defined, and nothing has been entered. -/
def start : Workplace := { scope := ⟨⟨r.settings.symbolSize, []⟩, [], []⟩ }

/-- The location counter as an operand. -/
def counterOperand : Excerpt := .ofLine "<pc>" none r.counter

theorem wellFormed_of_mem_definitionLines {e : Excerpt} (h : e ∈ r.definitionLines) :
    e.WellFormed := by
  obtain ⟨⟨a, i⟩, _, rfl⟩ := List.mem_map.mp h
  exact Excerpt.wellFormed_ofLine _ _ _

/-- The definitions that could be read of a file with these bytes. -/
def entriesOf (f : File) (bs : List UInt8) : List Excerpt :=
  DefinitionText.entries (some r.settings.delimiter) f.name (Utf8.read bs).lines

theorem readFile_grows (f : File) : Moves Workplace.Grows (r.readFile f) := by
  rw [readFile]
  cases f.content with
  | missing => exact Moves.pure ()
  | locked reason => exact lift_grows ((r.job 0).error_grows _ _)
  | bytes bs =>
    apply Moves.bind (lift_grows ((r.job 0).defineAll_grows _))
    intro _
    cases (Utf8.read bs).isWhole with
    | true => exact Moves.pure ()
    | false => exact fun w => refl_of Workplace.Grows w

theorem readFiles_grows (files : List File) : Moves Workplace.Grows (r.readFiles files) := by
  induction files with
  | nil => exact Moves.pure ()
  | cons f rest ih => exact Moves.bind (r.readFile_grows f) fun _ => ih

theorem sized_start : r.start.scope.inner.Sized := Job.sized_of_symbolSize (j := r.job 0) rfl

section Preparation
variable {r} (pos : r.settings.width.Positive)
include pos

theorem lift_defineAll {lines : List Excerpt} (wf : ∀ e ∈ lines, e.WellFormed) {w : Workplace}
    (sized : w.scope.inner.Sized) : ∃ later,
      (lift ((r.job 0).defineAll lines)).run w = .ok () later ∧ w.Grows later := by
  obtain ⟨later, worked, _⟩ := Job.defineAll_ok (j := r.job 0) pos wf sized
  exact ⟨later, run_lift worked, ((r.job 0).defineAll_grows lines).of_ok worked⟩

/-- What could be read is worked through, and then it shows whether there is more. -/
theorem readFile_bytes {f : File} {bs : List UInt8} (content : f.content = .bytes bs)
    {w : Workplace} (sized : w.scope.inner.Sized) : ∃ later,
      (lift ((r.job 0).defineAll (r.entriesOf f bs))).run w = .ok () later ∧
      (r.readFile f).run w =
        if (Utf8.read bs).isWhole then .ok () later else .error .spoiledFile later := by
  have wf : ∀ e ∈ r.entriesOf f bs, e.WellFormed := by
    intro e known
    obtain ⟨_, _, selects⟩ := DefinitionText.selects_of_mem_entries known
    exact selects.wellFormed
  obtain ⟨later, worked, _⟩ := lift_defineAll pos wf sized
  refine ⟨later, worked, ?_⟩
  rw [entriesOf] at worked
  rw [readFile]
  simp only [content]
  rw [EStateM.run_bind, worked]
  cases (Utf8.read bs).isWhole with
  | true => rfl
  | false => rfl

theorem readFile_ok {f : File} (whole : ∀ bs, f.content = .bytes bs → (Utf8.read bs).isWhole = true)
    {w : Workplace} (sized : w.scope.inner.Sized) :
    ∃ later, (r.readFile f).run w = .ok () later := by
  cases content : f.content with
  | missing => exact ⟨w, by rw [readFile, content]; rfl⟩
  | locked reason => exact ⟨_, by rw [readFile, content]; rfl⟩
  | bytes bs =>
    obtain ⟨later, _, read⟩ := readFile_bytes pos content sized
    rw [whole bs content, if_pos rfl] at read
    exact ⟨later, read⟩

theorem readFiles_ok {files : List File} (whole : Readable files) {w : Workplace}
    (sized : w.scope.inner.Sized) : ∃ later, (r.readFiles files).run w = .ok () later := by
  induction files generalizing w with
  | nil => exact ⟨w, rfl⟩
  | cons f rest ih =>
    obtain ⟨here, others⟩ := List.forall_mem_cons.mp whole
    obtain ⟨next, read⟩ := readFile_ok pos here sized
    have grows := (r.readFile_grows f).of_ok read
    obtain ⟨later, further⟩ := ih others (Scope.sized_of_grows sized grows.scope)
    refine ⟨later, ?_⟩
    rw [readFiles, EStateM.run_bind, read]
    exact further

/-- What comes before the operands comes to an end, and the ledger has counted its errors then. -/
theorem prepare_ok (whole : Readable r.files) : ∃ w₁ w₂ w₃ counter,
    (r.readFiles r.files).run r.start = .ok () w₁ ∧
    (lift ((r.job 0).defineAll r.definitionLines)).run w₁ = .ok () w₂ ∧
    (lift ((r.job 0).evaluate r.counterOperand)).run w₂ = .ok counter w₃ ∧
    r.prepare.run r.start = .ok counter w₃ ∧ w₃.desk.a.Balanced := by
  obtain ⟨w₁, read⟩ := readFiles_ok pos whole r.sized_start
  have grows₁ := (r.readFiles_grows r.files).of_ok read
  have sized₁ := Scope.sized_of_grows r.sized_start grows₁.scope
  obtain ⟨w₂, defined, grows₂⟩ :=
    lift_defineAll pos (fun e he => r.wellFormed_of_mem_definitionLines he) sized₁
  obtain ⟨counter, w₃, evaluated, _⟩ :=
    Job.evaluate_ok (j := r.job 0) pos (Excerpt.wellFormed_ofLine "<pc>" none r.counter) w₂
  have grows₃ := ((r.job 0).evaluate_grows r.counterOperand).of_ok evaluated
  refine ⟨w₁, w₂, w₃, counter, read, defined, run_lift evaluated, ?_, ?_⟩
  · rw [prepare, EStateM.run_bind, read]
    show EStateM.run (lift _ >>= fun _ => lift _) w₁ = _
    rw [EStateM.run_bind, defined]
    exact run_lift evaluated
  · have grows := trans_of Workplace.Grows (trans_of Workplace.Grows grows₁ grows₂) grows₃
    obtain ⟨more, adds⟩ := grows.desk .a
    exact adds.balanced rfl

end Preparation

/-- What an operand comes to by itself, once everything before the operands is done. -/
def Answers (s : Scope) (counter : Int) (operand : Text) (o : AsmOperand.Outcome Int) : Prop :=
  Yields (((r.job counter).env s).evaluate (.ofText operand)) 0 o

/-- What is printed for a value: zero if the value fails the check that is asked for. -/
def checked (v : Int) : Int :=
  match r.check with
  | none => v
  | some range => if range.Contains v then v else 0

/-- Neither the evaluation of an operand nor the check of its value has anything to report. -/
def Clean (o : AsmOperand.Outcome Int) : Prop :=
  problemsOf o.events = [] ∧ ∀ range ∈ r.check, range.Contains o.value

/-- The line shows what is printed for an operand, in decimal and in hexadecimal, and the register
holds it. -/
def Prints (s : Scope) (counter : Int) (operand : Text) (line : String) : Prop :=
  ∃ o hex, r.Answers s counter operand o ∧ r.settings.width.Holds (r.checked o.value) ∧
    Hex.literal? r.settings.width (r.checked o.value) = some hex ∧
    line = s!"{r.checked o.value}\t{String.ofList hex}"

variable {r} in
theorem Prints.unique {s : Scope} {counter : Int} {operand : Text} {line line' : String}
    (h : r.Prints s counter operand line) (h' : r.Prints s counter operand line') :
    line = line' := by
  obtain ⟨o, hex, answers, _, written, rfl⟩ := h
  obtain ⟨o', hex', answers', _, written', rfl⟩ := h'
  obtain rfl := Yields.unique answers answers'
  obtain rfl := Option.some.inj (written.symm.trans written')
  rfl

section Operands
variable {r} (pos : r.settings.width.Positive)
include pos

theorem evaluate_steady (s : Scope) (counter : Int) (t : Text) : Steady r.settings.width.Holds
    (((r.job counter).env s).evaluate (.ofText t)) := by
  have fixed (k : Nat) : ((r.job counter).env s).counter k = ((r.job counter).env s).counter 0 := by
    show (Counter.fixed counter).reading k = (Counter.fixed counter).reading 0
    rw [Counter.reading_fixed, Counter.reading_fixed]
  exact Env.evaluate_steady pos fixed (Excerpt.wellFormed_ofText t)

theorem exists_answers (s : Scope) (counter : Int) (operand : Text) :
    ∃ o, r.Answers s counter operand o ∧ r.settings.width.Holds o.value := by
  obtain ⟨v, es, n, held, yields⟩ := evaluate_steady pos s counter operand
  exact ⟨_, yields 0, held⟩

variable {s : Scope} {counter : Int}

/-- Neither the number of an operand nor what was evaluated before it bears on its value. -/
theorem run_evaluate {e : Excerpt} (wf : e.WellFormed) {o : AsmOperand.Outcome Int}
    (answers : r.Answers s counter e.text o) {w : Workplace} (here : w.scope = s) :
    ∃ later, ((r.job counter).evaluate e).run w = .ok o.value later ∧ later.scope = s ∧
      ∃ more, (w.desk.ledger .a).Adds more (later.desk.ledger .a) ∧
        (more = [] ↔ problemsOf o.events = []) := by
  subst here
  obtain ⟨v, es, n, _, yields⟩ := evaluate_steady pos w.scope counter e.text
  obtain rfl := Yields.unique answers (yields 0)
  have ran := Job.run_evaluate (Env.yields_placed wf (yields w.reads))
  have adds := w.desk.adds_enterAll .a .a (es.map (Event.placed e))
  refine ⟨_, ran, rfl, _, adds, ?_⟩
  rw [if_pos rfl, List.map_eq_nil_iff, problemsOf_map_placed, List.map_eq_nil_iff]

theorem run_operandValue {e : Excerpt} (wf : e.WellFormed) {o : AsmOperand.Outcome Int}
    (answers : r.Answers s counter e.text o) {w : Workplace} (here : w.scope = s) :
    ∃ later, (r.operandValue counter e).run w = .ok (r.checked o.value) later ∧ later.scope = s ∧
      ∃ more, (w.desk.ledger .a).Adds more (later.desk.ledger .a) ∧ (more = [] ↔ r.Clean o) := by
  obtain ⟨later, ran, same, more, adds, quiet⟩ := run_evaluate pos wf answers here
  rw [operandValue, EStateM.run_bind, ran]
  cases asked : r.check with
  | none =>
    refine ⟨later, ?_, same, more, adds, ?_⟩
    · simp [checked, asked]
    · simp [Clean, asked, quiet]
  | some range =>
    by_cases inside : range.Contains o.value
    · refine ⟨later, ?_, same, more, adds, ?_⟩
      · simp [checked, asked, ByteRange.check, inside]
      · simp [Clean, asked, quiet, inside]
    · have failed := later.desk.adds_error_self .a
        (.outOfRange o.value (-range.bound) range.bound) (.excerpt e)
      refine ⟨{ later with desk := later.desk.error .a _ _ }, ?_, ?_, _, adds.trans failed, ?_⟩
      · simp only [checked, asked, ByteRange.check, if_neg inside]
        rfl
      · exact same
      · simp [Clean, asked, inside]

/-- What fails its check is printed as zero, and zero always fits. -/
theorem holds_checked {operand : Text} {o : AsmOperand.Outcome Int}
    (answers : r.Answers s counter operand o) : r.settings.width.Holds (r.checked o.value) := by
  obtain ⟨o', answers', held⟩ := exists_answers pos s counter operand
  obtain rfl := Yields.unique answers answers'
  rw [checked]
  cases r.check with
  | none => exact held
  | some range =>
    by_cases inside : range.Contains o.value
    · simp only [if_pos inside]
      exact held
    · simp only [if_neg inside]
      exact Width.holds_zero _

theorem exists_printed (v : Int) : ∃ hex, Hex.literal? r.settings.width v = some hex ∧
    r.printed v = some s!"{v}\t{String.ofList hex}" := by
  have written : ∃ hex, Hex.literal? r.settings.width v = some hex := by
    cases width : r.settings.width with
    | unlimited => exact ⟨_, rfl⟩
    | bits n =>
      have room : 1 ≤ n := by rwa [width] at pos
      exact ⟨_, if_neg (by omega)⟩
  obtain ⟨hex, written⟩ := written
  exact ⟨hex, written, by rw [printed, written, Option.map_some]⟩

variable (counter) in
/-- Each operand gets its line, and an error is entered if one of them is not clean. -/
theorem printAll_ok (operands : List Text) (i : Nat) {w : Workplace} (here : w.scope = s) :
    ∃ lines later, (r.printAll counter i operands).run w = .ok lines later ∧
      List.Forall₂ (r.Prints s counter) operands lines ∧
      ∃ more, (w.desk.ledger .a).Adds more (later.desk.ledger .a) ∧
        (more = [] ↔ ∀ operand ∈ operands, ∃ o, r.Answers s counter operand o ∧ r.Clean o) := by
  induction operands generalizing i w with
  | nil => exact ⟨[], w, rfl, .nil, [], .refl _, by simp⟩
  | cons operand rest ih =>
    obtain ⟨o, answers, _⟩ := exists_answers pos s counter operand
    have wf := Excerpt.wellFormed_ofLine s!"<operand {i}>" none operand
    have spells := Excerpt.text_ofLine s!"<operand {i}>" none operand
    obtain ⟨next, ran, same, es, adds, quiet⟩ :=
      run_operandValue pos wf (o := o) (by rwa [spells]) here
    obtain ⟨hex, written, shown⟩ := exists_printed (r := r) pos (r.checked o.value)
    obtain ⟨lines, later, further, prints, fs, adds', quiet'⟩ := ih (i + 1) same
    have line : r.Prints s counter operand s!"{r.checked o.value}\t{String.ofList hex}" :=
      ⟨o, hex, answers, holds_checked pos answers, written, rfl⟩
    refine ⟨_, later, ?_, .cons line prints, es ++ fs, adds.trans adds', ?_⟩
    · rw [printAll, EStateM.run_bind, run_lift ran]
      simp only [shown]
      rw [EStateM.run_bind, further]
      rfl
    · rw [List.append_eq_nil_iff, quiet, quiet', List.forall_mem_cons]
      refine and_congr_left' ⟨fun clean => ⟨o, answers, clean⟩, ?_⟩
      rintro ⟨o', answers', clean⟩
      rwa [Yields.unique answers answers']

section Prepared
variable {w : Workplace} (ready : r.prepare.run r.start = .ok counter w)
  (balanced : w.desk.a.Balanced)
include ready balanced

omit pos in
/-- With an error before the operands the command ends there. -/
theorem run_of_reports (faulty : w.desk.a.reports ≠ #[]) :
    r.run.output = [] ∧ r.run.result = .ok 1 := by
  have counted : w.desk.a.tally.errors > 0 := by
    have errors : w.desk.a.tally.errors = w.desk.a.reports.size := balanced
    have positive := Array.size_pos_iff.mpr faulty
    omega
  rw [start] at ready
  simp only [run, ready, if_pos counted, and_self]

theorem run_of_quiet (quiet : w.desk.a.reports = #[]) :
    List.Forall₂ (r.Prints w.scope counter) r.operands r.run.output ∧
      (r.run.result = .ok 0 ∨ r.run.result = .ok 1) ∧
      (r.run.result = .ok 0 ↔
        ∀ operand ∈ r.operands, ∃ o, r.Answers w.scope counter operand o ∧ r.Clean o) := by
  have errors : w.desk.a.tally.errors = 0 := by
    have errors : w.desk.a.tally.errors = w.desk.a.reports.size := balanced
    rwa [quiet] at errors
  obtain ⟨lines, later, printed, prints, more, adds, clean⟩ :=
    printAll_ok pos counter r.operands 1 (rfl : w.scope = w.scope)
  have counted : later.desk.a.tally.errors = w.desk.a.tally.errors + more.length := adds.errors
  rw [start] at ready
  by_cases none : more = []
  · have last : ¬later.desk.a.tally.errors > 0 := by
      rw [none, List.length_nil] at counted
      omega
    simp only [run, ready, errors, printed, if_neg last]
    exact ⟨prints, .inl rfl, iff_of_true rfl (clean.mp none)⟩
  · have last : later.desk.a.tally.errors > 0 := by
      have positive := List.length_pos_iff.mpr none
      omega
    simp only [run, ready, errors, printed, if_pos last]
    refine ⟨prints, .inr rfl, iff_of_false ?_ (mt clean.mpr none)⟩
    intro same
    cases same

end Prepared

end Operands

/-- What a request has of the options that ask for it. -/
structure Asked (o : Options) (r : Request) : Prop where
  definitions : o.definitions.mapM Assignment.ofText? = some r.definitions
  width : Width.ofText o.width = .ok r.settings.width
  files : r.files = o.files

theorem asked_of_request? {o : Options} {r : Request} (h : o.request? = some r) : Asked o r := by
  simp only [Options.request?, bind, Option.bind_eq_some_iff] at h
  obtain ⟨definitions, read, width, known, size, _, settings, made, h⟩ := h
  have same : Width.ofText o.width = .ok settings.width := by
    rw [Settings.width_of_ofFields (eq_ok_of_toOption made)]
    exact eq_ok_of_toOption known
  split at h
  · simp only [Option.bind_some] at h
    split at h
    · cases h
    · cases h
      exact ⟨read, same, rfl⟩
  · obtain ⟨check, _, h⟩ := Option.bind_eq_some_iff.mp h
    split at h
    · cases h
    · cases h
      exact ⟨read, same, rfl⟩

/-- Options that can be used leave room for a value, and they name the files to be read. -/
theorem usable_of_request? {o : Options} {r : Request} (asked : o.request? = some r) :
    r.settings.width.Positive ∧ r.files = o.files := by
  obtain ⟨_, width, files⟩ := asked_of_request? asked
  exact ⟨Width.positive_of_ofText width, files⟩

/-- Nothing that comes before the operands depends on them. -/
theorem prepare_alone (operands : List Text) :
    { r with operands := operands }.prepare = r.prepare := by
  have reads (files : List File) :
      { r with operands := operands }.readFiles files = r.readFiles files := by
    induction files with
    | nil => rfl
    | cons f rest ih =>
      rw [readFiles, readFiles, ih]
      rfl
  rw [prepare, prepare, reads]
  rfl

/-- The command reads the files, then takes the definitions, then evaluates the location counter. If
an error was entered until then, nothing is printed. Otherwise each operand has its line, in order:
the one that the command prints for this operand alone. The line shows a value that the register
holds, and the exit code tells whether every operand was clean. -/
theorem run_prints {o : Options} {r : Request} (asked : o.request? = some r)
    (whole : Readable o.files) : ∃ w₁ w₂ w₃ counter,
      (r.readFiles r.files).run r.start = .ok () w₁ ∧
      (lift ((r.job 0).defineAll r.definitionLines)).run w₁ = .ok () w₂ ∧
      (lift ((r.job 0).evaluate r.counterOperand)).run w₂ = .ok counter w₃ ∧
      (w₃.desk.a.reports ≠ #[] → r.run.output = [] ∧ r.run.result = .ok 1) ∧
      (w₃.desk.a.reports = #[] →
        List.Forall₂ (fun operand line => { r with operands := [operand] }.run.output = [line] ∧
          r.Prints w₃.scope counter operand line) r.operands r.run.output ∧
        (r.run.result = .ok 0 ∨ r.run.result = .ok 1) ∧
        (r.run.result = .ok 0 ↔
          ∀ operand ∈ r.operands, ∃ o, r.Answers w₃.scope counter operand o ∧ r.Clean o)) := by
  obtain ⟨pos, files⟩ := usable_of_request? asked
  rw [← files] at whole
  obtain ⟨w₁, w₂, w₃, counter, read, defined, evaluated, ready, balanced⟩ := prepare_ok pos whole
  refine ⟨w₁, w₂, w₃, counter, read, defined, evaluated, run_of_reports ready balanced, ?_⟩
  intro quiet
  obtain ⟨prints, codes, clean⟩ := run_of_quiet pos ready balanced quiet
  refine ⟨?_, codes, clean⟩
  apply prints.imp
  intro operand line here
  -- Everything before the operands is the same with a single one.
  have ready' : { r with operands := [operand] }.prepare.run r.start = .ok counter w₃ := by
    rwa [prepare_alone]
  obtain ⟨prints', _⟩ :=
    run_of_quiet (r := { r with operands := [operand] }) pos ready' balanced quiet
  obtain ⟨line', others, alone, none, output⟩ := List.forall₂_cons_left_iff.mp prints'
  obtain rfl := List.forall₂_nil_left_iff.mp none
  obtain rfl := here.unique alone
  exact ⟨output, here⟩

/-- The second operand divides by zero and fits no byte; the others are none the worse for it. -/
theorem run_prints_three :
    let file : File := ⟨"defs.sym", .bytes ("B $+3 ; one".toList.map fun c => .ofNat c.toNat)⟩
    let o : Options := {
      definitions := ["A=B*2".toList]
      files := [file, ⟨"more.sym", .bytes []⟩]
      counter := "A".toList
      check := some "byte".toList
      operands := ["A-$".toList, "300+1/0".toList, "$".toList] }
    Readable o.files ∧ ∃ r, o.request? = some r ∧
      r.run.output = ["0\t00000000H", "0\t00000000H", "6\t00000006H"] ∧ r.run.result = .ok 1 ∧
      { r with operands := ["$".toList] }.run.output = ["6\t00000006H"] := by
  intro file o
  have whole : Readable o.files := by
    refine List.forall_mem_cons.mpr ⟨?_, List.forall_mem_singleton.mpr ?_⟩
    · rintro bs ⟨⟩
      decide +kernel
    · rintro bs ⟨⟩
      decide +kernel
  have usable : o.request?.isSome = true := by decide +kernel
  obtain ⟨r, asked⟩ := Option.isSome_iff_exists.mp usable
  have ran : o.request?.map (fun r => (r.operands, r.run.output, r.run.result.toOption)) =
      some (o.operands, ["0\t00000000H", "0\t00000000H", "6\t00000006H"], some 1) := by
    decide +kernel
  rw [asked] at ran
  obtain ⟨operands, printed, code⟩ : r.operands = o.operands ∧
      r.run.output = ["0\t00000000H", "0\t00000000H", "6\t00000006H"] ∧
      r.run.result.toOption = some 1 := by
    simpa only [Option.map_some, Option.some.injEq, Prod.mk.injEq] using ran
  obtain ⟨_, _, w₃, counter, _, _, _, faulty, fine⟩ := run_prints asked whole
  have quiet : w₃.desk.a.reports = #[] := by
    by_contra reports
    rw [(faulty reports).1] at printed
    cases printed
  obtain ⟨lines, _, _⟩ := fine quiet
  rw [operands, printed] at lines
  simp only [o, List.forall₂_cons] at lines
  obtain ⟨_, _, ⟨last, _⟩, _⟩ := lines
  exact ⟨whole, r, asked, printed, eq_ok_of_toOption code, last⟩

end Request

end Command

end AsmOperand
