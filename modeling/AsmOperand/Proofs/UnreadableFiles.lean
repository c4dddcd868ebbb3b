import AsmOperand.Proofs.Commands
import AsmOperand.Proofs.Encodings

/-!
# Files that cannot be read

A file that cannot be opened is an error like any other: it is reported, the files behind it are
read all the same, and the exit code is one. Bytes that are no text are not reported. They are the
only thing that breaks the command off, and the first file that has them does so, once the lines
that could be read of it have been worked through.

Values are taken to be shown however many digits they have.
-/

namespace AsmOperand.Command

/-- The file has bytes that encode no text. -/
def File.IsSpoiled (f : File) : Prop := ∃ bs, f.content = .bytes bs ∧ ¬∃ t, Utf8.Encodes t bs

instance : (f : File) → Decidable f.IsSpoiled
  | ⟨_, .missing⟩ => .isFalse (by rintro ⟨_, content, _⟩; cases content)
  | ⟨_, .locked _⟩ => .isFalse (by rintro ⟨_, content, _⟩; cases content)
  | ⟨_, .bytes bs⟩ => decidable_of_iff (¬∃ t, Utf8.Encodes t bs)
      ⟨fun noText => ⟨bs, rfl, noText⟩, fun ⟨_, same, noText⟩ => Content.bytes.inj same ▸ noText⟩

theorem File.isWhole_of_not_isSpoiled {f : File} (fine : ¬f.IsSpoiled) {bs : List UInt8}
    (content : f.content = .bytes bs) : (Utf8.read bs).isWhole = true := by
  by_contra cut
  exact fine ⟨bs, content, mt Utf8.isWhole_read_iff.mpr cut⟩

namespace Request

variable {r : Request}

section Files
variable (pos : r.settings.width.Positive)
include pos

/-- What could be read of a spoiled file is worked through first. -/
theorem readFile_spoiled {f : File} (spoiled : f.IsSpoiled) {w : Workplace}
    (sized : w.scope.inner.Sized) : ∃ bs later, f.content = .bytes bs ∧
      (lift ((r.job 0).defineAll (r.entriesOf f bs))).run w = .ok () later ∧
      (r.readFile f).run w = .error .spoiledFile later := by
  obtain ⟨bs, content, noText⟩ := spoiled
  obtain ⟨later, worked, read⟩ := readFile_bytes pos content sized
  rw [if_neg (mt Utf8.isWhole_read_iff.mp noText)] at read
  exact ⟨bs, later, content, worked, read⟩

/-- The files before the first spoiled one are read, and those behind it are not. -/
theorem readFiles_spoiled {before : List File} {f : File} (after : List File)
    (fine : ∀ g ∈ before, ¬g.IsSpoiled) (spoiled : f.IsSpoiled) {w : Workplace}
    (sized : w.scope.inner.Sized) : ∃ bs w₁ w₂,
      f.content = .bytes bs ∧ (r.readFiles before).run w = .ok () w₁ ∧
      (lift ((r.job 0).defineAll (r.entriesOf f bs))).run w₁ = .ok () w₂ ∧
      (r.readFiles (before ++ f :: after)).run w = .error .spoiledFile w₂ := by
  induction before generalizing w with
  | nil =>
    obtain ⟨bs, w₂, content, worked, broken⟩ := readFile_spoiled pos spoiled sized
    refine ⟨bs, w, w₂, content, rfl, worked, ?_⟩
    rw [List.nil_append, readFiles, EStateM.run_bind, broken]
  | cons g rest ih =>
    obtain ⟨here, others⟩ := List.forall_mem_cons.mp fine
    obtain ⟨next, read⟩ :=
      readFile_ok pos (fun _ content => File.isWhole_of_not_isSpoiled here content) sized
    have grows := (r.readFile_grows g).of_ok read
    obtain ⟨bs, w₁, w₂, content, earlier, worked, broken⟩ :=
      ih others (Scope.sized_of_grows sized grows.scope)
    refine ⟨bs, w₁, w₂, content, ?_, worked, ?_⟩
    · rw [readFiles, EStateM.run_bind, read]
      exact earlier
    · rw [List.cons_append, readFiles, EStateM.run_bind, read]
      exact broken

end Files

/-- Among files that have all been read, those that could not be opened have been reported. -/
theorem mem_reports_of_locked {files : List File} {w later : Workplace}
    (read : (r.readFiles files).run w = .ok () later) {f : File} (known : f ∈ files)
    {reason : String} (locked : f.content = .locked reason) :
    ⟨.unreadable reason, []⟩ ∈ later.desk.a.reports := by
  induction files generalizing w with
  | nil => cases known
  | cons g rest ih =>
    rw [readFiles, EStateM.run_bind] at read
    cases first : (r.readFile g).run w with
    | error e next =>
      rw [first] at read
      cases read
    | ok _ next =>
      rw [first] at read
      have further : (r.readFiles rest).run next = .ok () later := read
      rcases List.mem_cons.mp known with rfl | known
      · have entered : ⟨.unreadable reason, []⟩ ∈ (next.desk.ledger .a).reports := by
          rw [readFile, locked] at first
          cases first
          have adds := w.desk.adds_error_self .a (.unreadable reason) (.file f.name)
          show _ ∈ ((w.desk.error .a (.unreadable reason) (.file f.name)).ledger .a).reports
          rw [← Array.mem_toList_iff, adds.reports]
          exact List.mem_append_right _ (List.mem_singleton_self _)
        exact Desk.mem_reports_of_grows ((r.readFiles_grows rest).of_ok further).desk .a entered
      · exact ih further known

section Endings
variable (pos : r.settings.width.Positive)
include pos

theorem run_spoiled {before after : List File} {f : File} (split : r.files = before ++ f :: after)
    (fine : ∀ g ∈ before, ¬g.IsSpoiled) (spoiled : f.IsSpoiled) : ∃ bs w₁ w₂,
      f.content = .bytes bs ∧ (r.readFiles before).run r.start = .ok () w₁ ∧
      (lift ((r.job 0).defineAll (r.entriesOf f bs))).run w₁ = .ok () w₂ ∧
      r.run = ⟨.error .spoiledFile, [], w₂.desk.log.toList⟩ := by
  obtain ⟨bs, w₁, w₂, content, read, worked, broken⟩ :=
    readFiles_spoiled pos after fine spoiled r.sized_start
  refine ⟨bs, w₁, w₂, content, read, worked, ?_⟩
  have ends : r.prepare.run r.start = .error .spoiledFile w₂ := by
    rw [prepare, split, EStateM.run_bind, broken]
  rw [start] at ends
  simp only [run, ends]

theorem run_fine (fine : ∀ f ∈ r.files, ¬f.IsSpoiled) :
    (r.run.result = .ok 0 ∨ r.run.result = .ok 1) ∧
      ∃ w counter, r.prepare.run r.start = .ok counter w ∧
        ∀ f ∈ r.files, ∀ reason, f.content = .locked reason →
          ⟨.unreadable reason, []⟩ ∈ w.desk.a.reports ∧
          r.run.output = [] ∧ r.run.result = .ok 1 := by
  have whole : Readable r.files := by
    intro f known bs content
    exact File.isWhole_of_not_isSpoiled (fine f known) content
  obtain ⟨w₁, w₂, w₃, counter, read, defined, evaluated, ready, balanced⟩ := prepare_ok pos whole
  constructor
  · by_cases quiet : w₃.desk.a.reports = #[]
    · exact (run_of_quiet pos ready balanced quiet).2.1
    · exact .inr (run_of_reports ready balanced quiet).2
  refine ⟨w₃, counter, ready, ?_⟩
  intro f known reason locked
  have entered : ⟨.unreadable reason, []⟩ ∈ w₁.desk.a.reports :=
    mem_reports_of_locked read known locked
  have grows₂ := (lift_grows ((r.job 0).defineAll_grows r.definitionLines)).of_ok defined
  have grows₃ := (lift_grows ((r.job 0).evaluate_grows r.counterOperand)).of_ok evaluated
  have kept : ⟨.unreadable reason, []⟩ ∈ w₃.desk.a.reports :=
    Desk.mem_reports_of_grows (trans_of Desk.Grows grows₂.desk grows₃.desk) .a entered
  have faulty : w₃.desk.a.reports ≠ #[] := by
    intro none
    rw [none] at kept
    exact Array.not_mem_empty _ kept
  exact ⟨kept, run_of_reports ready balanced faulty⟩

end Endings

/-- The command breaks off exactly if a file holds bytes that encode no text. The first such file
does it, once the files before it and the lines that could be read of it have been worked through;
it is not reported, and there is no output. Without such a file the exit code is zero or one. Then
every file that could not be opened is reported, and if there is one, nothing is printed and the
exit code is one. -/
theorem run_ends {o : Options} (asked : o.request? = some r) :
    (r.run.result = .error .spoiledFile ↔ ∃ f ∈ o.files, f.IsSpoiled) ∧
    (∀ before f after, o.files = before ++ f :: after → (∀ g ∈ before, ¬g.IsSpoiled) →
      f.IsSpoiled → ∃ bs w₁ w₂, f.content = .bytes bs ∧
        (r.readFiles before).run r.start = .ok () w₁ ∧
        (lift ((r.job 0).defineAll (r.entriesOf f bs))).run w₁ = .ok () w₂ ∧
        r.run = ⟨.error .spoiledFile, [], w₂.desk.log.toList⟩) ∧
    ((∀ f ∈ o.files, ¬f.IsSpoiled) →
      (r.run.result = .ok 0 ∨ r.run.result = .ok 1) ∧
      ∃ w counter, r.prepare.run r.start = .ok counter w ∧
        ∀ f ∈ o.files, ∀ reason, f.content = .locked reason →
          ⟨.unreadable reason, []⟩ ∈ w.desk.a.reports ∧
          r.run.output = [] ∧ r.run.result = .ok 1) := by
  obtain ⟨pos, files⟩ := usable_of_request? asked
  rw [← files]
  refine ⟨?_, fun before f after split fine spoiled => run_spoiled pos split fine spoiled,
    run_fine pos⟩
  constructor
  · intro broken
    by_contra none
    have fine : ∀ f ∈ r.files, ¬f.IsSpoiled := fun f known spoiled => none ⟨f, known, spoiled⟩
    rcases (run_fine pos fine).1 with code | code
    · rw [code] at broken
      cases broken
    · rw [code] at broken
      cases broken
  · rintro ⟨f, known, spoiled⟩
    have some : (r.files.find? fun f => decide f.IsSpoiled).isSome = true :=
      List.find?_isSome.mpr ⟨f, known, decide_eq_true spoiled⟩
    obtain ⟨g, first⟩ := Option.isSome_iff_exists.mp some
    obtain ⟨here, before, after, split, fine⟩ := List.find?_eq_some_iff_append.mp first
    obtain ⟨_, _, _, _, _, _, ran⟩ :=
      run_spoiled pos split (by simpa using fine) (of_decide_eq_true here)
    rw [ran]

/-- A file in order, and one that cannot be opened. -/
theorem run_ends_locked :
    let file : File := ⟨"defs.sym", .bytes [0xC3, 0x89, 0x20, 0x33]⟩
    let gone : File := ⟨"gone.sym", .locked "Input/output error"⟩
    let o : Options := { files := [gone, file], operands := ["É".toList] }
    (∀ f ∈ o.files, ¬f.IsSpoiled) ∧ ∃ r, o.request? = some r ∧ r.run.output = [] ∧
      r.run.result = .ok 1 ∧ ∃ w counter, r.prepare.run r.start = .ok counter w ∧
        ⟨.unreadable "Input/output error", []⟩ ∈ w.desk.a.reports := by
  intro file gone o
  have fine : ∀ f ∈ o.files, ¬f.IsSpoiled := by decide +kernel
  have usable : o.request?.isSome = true := by decide +kernel
  obtain ⟨r, asked⟩ := Option.isSome_iff_exists.mp usable
  obtain ⟨_, w, counter, ready, reported⟩ := (run_ends asked).2.2 fine
  obtain ⟨kept, output, code⟩ := reported gone List.mem_cons_self _ rfl
  exact ⟨fine, r, asked, output, code, w, counter, ready, kept⟩

/-- No character starts with this byte. -/
theorem run_spoiled_byte :
    let o : Options := { files := [⟨"bad.sym", .bytes [0xFF]⟩], operands := [['1']] }
    ∃ r, o.request? = some r ∧ r.run.result = .error .spoiledFile ∧ r.run.output = [] ∧
      r.run.log = [] := by
  intro o
  have usable : o.request?.isSome = true := by decide +kernel
  obtain ⟨r, asked⟩ := Option.isSome_iff_exists.mp usable
  have ran : o.request?.map (fun r => (r.run.result, r.run.output, r.run.log)) =
      some (.error .spoiledFile, [], []) := by decide +kernel
  rw [asked] at ran
  obtain ⟨result, output, log⟩ : r.run.result = .error .spoiledFile ∧ r.run.output = [] ∧
      r.run.log = [] := by
    simpa only [Option.map_some, Option.some.injEq, Prod.mk.injEq] using ran
  exact ⟨r, asked, result, output, log⟩

end Request

end AsmOperand.Command
