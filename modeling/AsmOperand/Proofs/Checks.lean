import AsmOperand.Proofs.Sessions

/-!
# Checks lose no error and repeat none

A script is what a client does with the two ledgers. It enters errors, warnings and notices, checks
parts of itself on a ledger, stops early, and goes on behind a stop that it catches. What it does
next may depend on what lies on the desk and on what was caught. Gathered errors come from checks
only: a handler may let a stop go on, but it does not keep one to stop with later.

Whatever happens inside a check, the errors that it gathers in the end are those that were entered
on its ledger meanwhile, and no error goes by unnoticed. A session that only makes entries, looks
names up and checks such steps is a script.
-/

namespace AsmOperand

/-- What a client enters on the desk. -/
inductive Entry where
  | error (target : Ledger.Name) (p : Problem) (place : Place)
  | warning (target : Ledger.Name) (message : String) (place : Place)
  | info (message : String) (place : Place)
  deriving DecidableEq, Repr

namespace Entry

/-- The error that the entry puts on a ledger, if any. -/
def report? (name : Ledger.Name) : Entry → Option Report
  | .error target p place => if target = name then some ⟨p, place.main?.toList⟩ else none
  | .warning _ _ _ => none
  | .info _ _ => none

/-- The errors that were entered on a ledger, in order. -/
def reportsOn (name : Ledger.Name) (entries : List Entry) : List Report :=
  entries.filterMap (report? name)

theorem reportsOn_append (name : Ledger.Name) (es fs : List Entry) :
    reportsOn name (es ++ fs) = reportsOn name es ++ reportsOn name fs := List.filterMap_append

end Entry

namespace Desk

def make (d : Desk) : Entry → Desk
  | .error target p place => d.error target p place
  | .warning target message place => d.warning target message place
  | .info message place => d.info message place

def makeAll (d : Desk) (entries : List Entry) : Desk := entries.foldl make d

theorem makeAll_append (d : Desk) (es fs : List Entry) :
    d.makeAll (es ++ fs) = (d.makeAll es).makeAll fs := List.foldl_append

theorem adds_make (d : Desk) (name : Ledger.Name) (e : Entry) :
    (d.ledger name).Adds (e.report? name).toList ((d.make e).ledger name) := by
  cases e with
  | error target p place =>
    have adds := d.adds_error name target p place
    by_cases same : target = name
    · rw [if_pos same] at adds
      rwa [Entry.report?, if_pos same]
    · rw [if_neg same] at adds
      rwa [Entry.report?, if_neg same]
  | warning target message place => exact d.adds_warning name target message place
  | info message place => exact d.adds_write name _

/-- Entry by entry, a ledger gets the errors that are entered on it. -/
theorem adds_makeAll (d : Desk) (name : Ledger.Name) (entries : List Entry) :
    (d.ledger name).Adds (Entry.reportsOn name entries) ((d.makeAll entries).ledger name) := by
  induction entries generalizing d with
  | nil => exact .refl _
  | cons e rest ih =>
    have both := (d.adds_make name e).trans (ih (d.make e))
    rw [Entry.reportsOn, List.filterMap_cons]
    cases entered : e.report? name with
    | none =>
      rw [entered] at both
      exact both
    | some r =>
      rw [entered] at both
      exact both

end Desk

namespace Ledger

section Settle
variable {ε : Type} {name : Name} {reports : List Report} {result : Except (Stop ε) Unit}

/-- The job ended normally or with gathered errors of the ledger, so the check has the last word. -/
def Settles (name : Name) (result : Except (Stop ε) Unit) : Prop :=
  result = .ok () ∨ ∃ rs, result = .error (.gathered name rs)

theorem settle_of_settles (h : Settles name result) : settle name reports result =
    if reports = [] then .ok () else .error (.gathered name reports) := by
  rcases h with rfl | ⟨rs, rfl⟩
  · simp [settle, settle.close]
  · simp [settle, settle.close]

theorem settle_of_not_settles (h : ¬Settles name result) :
    settle name reports result = result := by
  cases result with
  | ok _ => exact absurd (.inl rfl) h
  | error stop =>
    cases stop with
    | other e => rfl
    | gathered owner rs =>
      rw [settle, if_neg]
      rintro rfl
      exact h (.inr ⟨rs, rfl⟩)

theorem settle_eq_gathered_iff {rs : List Report} :
    settle name reports result = .error (.gathered name rs) ↔
      rs = reports ∧ reports ≠ [] ∧ Settles name result := by
  by_cases settles : Settles name result
  · rw [settle_of_settles settles]
    by_cases none : reports = []
    · simp [none]
    · simp [none, settles, eq_comm]
  · rw [settle_of_not_settles settles]
    refine iff_of_false ?_ fun h => settles h.2.2
    exact fun ends => settles (.inr ⟨rs, ends⟩)

/-- Gathered errors of the ledger end normally only if they are none. -/
theorem settle_eq_ok_iff (known : ∀ rs, result = .error (.gathered name rs) → reports ≠ []) :
    settle name reports result = .ok () ↔ result = .ok () ∧ reports = [] := by
  by_cases settles : Settles name result
  · rw [settle_of_settles settles]
    by_cases none : reports = []
    · rw [if_pos none]
      rcases settles with ends | ⟨rs, ends⟩
      · exact iff_of_true rfl ⟨ends, none⟩
      · exact absurd none (known rs ends)
    · simp [none]
  · rw [settle_of_not_settles settles]
    refine iff_of_false ?_ ?_
    · exact fun ends => settles (.inl ends)
    · exact fun ends => settles (.inl ends.1)

theorem settle_eq_stop_iff {stop : Stop ε} (foreign : ∀ rs, stop ≠ .gathered name rs) :
    settle name reports result = .error stop ↔ result = .error stop := by
  by_cases settles : Settles name result
  · rw [settle_of_settles settles]
    refine iff_of_false ?_ ?_
    · intro ends
      split at ends
      · cases ends
      · exact foreign reports (Except.error.inj ends).symm
    · rintro rfl
      rcases settles with ends | ⟨rs, ends⟩
      · cases ends
      · exact foreign rs (Except.error.inj ends)
  · rw [settle_of_not_settles settles]

end Settle

theorem gatheredMessage_eq (reports : List Report) : gatheredMessage reports =
    if reports.length = 1 then "1 error" else s!"{reports.length} errors" := by
  by_cases one : reports.length = 1
  · rw [gatheredMessage, one]
    rfl
  · have several : ¬(reports.length : Int) = 1 := by omega
    rw [gatheredMessage, counted, if_neg one, if_neg several]
    show toString reports.length ++ " " ++ "error" ++ "s" = toString reports.length ++ " errors"
    rw [String.append_assoc, String.append_assoc]
    rfl

end Ledger

/-- What a client does with the ledgers of a desk. Other failures are those of `ε`. -/
inductive Script (ε : Type) where
  | pass
  | enter (e : Entry)
  | raise (e : ε)
  /-- What comes next depends on what lies on the desk. -/
  | look (next : Desk → Script ε)
  | seq (first second : Script ε)
  | check (name : Ledger.Name) (body : Script ε)
  /-- A stop of the body that is caught is handled. Then it goes on if it `resumes`. -/
  | attempt (body : Script ε) (catches : Ledger.Stop ε → Bool)
    (handler : Ledger.Stop ε → Script ε) (resumes : Ledger.Stop ε → Bool)

namespace Script

/-- How a script ends, and what it entered until then. -/
structure Ending (ε : Type) where
  result : Except (Ledger.Stop ε) Unit
  entries : List Entry
  desk : Desk

variable {ε : Type}

def run : Script ε → Desk → Ending ε
  | .pass, d => ⟨.ok (), [], d⟩
  | .enter e, d => ⟨.ok (), [e], d.make e⟩
  | .raise e, d => ⟨.error (.other e), [], d⟩
  | .look next, d => (next d).run d
  | .seq first second, d =>
    let before := first.run d
    match before.result with
    | .error _ => before
    | .ok () =>
      let after := second.run before.desk
      ⟨after.result, before.entries ++ after.entries, after.desk⟩
  | .check name body, d =>
    let inner := body.run d
    let reports := (inner.desk.ledger name).reportsSince (d.ledger name).reports.size
    { inner with result := Ledger.settle name reports inner.result }
  | .attempt body catches handler resumes, d =>
    let inner := body.run d
    match inner.result with
    | .ok () => inner
    | .error stop =>
      if catches stop then
        let after := (handler stop).run inner.desk
        let result := match after.result with
          | .ok () => if resumes stop then .error stop else .ok ()
          | .error e => .error e
        ⟨result, inner.entries ++ after.entries, after.desk⟩
      else inner

section Seq
variable {first second : Script ε} {d : Desk}

theorem run_seq_of_error {e : Ledger.Stop ε} (h : (first.run d).result = .error e) :
    (seq first second).run d = first.run d := by
  rw [run]
  simp only [h]

theorem run_seq_of_ok (h : (first.run d).result = .ok ()) : (seq first second).run d =
    { second.run (first.run d).desk with
      entries := (first.run d).entries ++ (second.run (first.run d).desk).entries } := by
  rw [run]
  simp only [h]

end Seq

/-- The desk holds what was entered and nothing else. -/
theorem desk_run (s : Script ε) (d : Desk) : (s.run d).desk = d.makeAll (s.run d).entries := by
  induction s generalizing d with
  | pass => rfl
  | enter e => rfl
  | raise e => rfl
  | look next ih => exact ih d d
  | seq first second ihFirst ihSecond =>
    have before := ihFirst d
    rw [run]
    cases ends : (first.run d).result with
    | error stop => simpa only [ends] using before
    | ok _ => simp only [Desk.makeAll_append, ← before, ← ihSecond]
  | check name body ih => exact ih d
  | attempt body catches handler resumes ihBody ihHandler =>
    have before := ihBody d
    rw [run]
    cases ends : (body.run d).result with
    | ok _ => simpa only [ends] using before
    | error stop =>
      by_cases caught : catches stop = true
      · simp only [if_pos caught, Desk.makeAll_append, ← before, ← ihHandler]
      · simpa only [ends, if_neg caught] using before

/-- A check settles its body by the errors that the body entered on its ledger. -/
theorem result_check (name : Ledger.Name) (body : Script ε) (d : Desk) :
    ((check name body).run d).result =
      Ledger.settle name (Entry.reportsOn name (body.run d).entries) (body.run d).result := by
  have since : ((body.run d).desk.ledger name).reportsSince (d.ledger name).reports.size =
      Entry.reportsOn name (body.run d).entries := by
    rw [desk_run]
    exact (d.adds_makeAll name _).reportsSince
  rw [← since]
  rfl

/-- Where gathered errors of a ledger are on their way, the ledger has got errors. -/
theorem reportsOn_ne_nil (s : Script ε) {d : Desk} {name : Ledger.Name} {rs : List Report}
    (h : (s.run d).result = .error (.gathered name rs)) :
    Entry.reportsOn name (s.run d).entries ≠ [] := by
  induction s generalizing d rs with
  | pass => cases h
  | enter e => cases h
  | raise e => cases h
  | look next ih => exact ih d h
  | seq first second ihFirst ihSecond =>
    rw [run] at h ⊢
    cases ends : (first.run d).result with
    | error stop =>
      simp only [ends] at h ⊢
      exact ihFirst (ends.trans h)
    | ok _ =>
      simp only [ends] at h ⊢
      rw [Entry.reportsOn_append]
      exact List.append_ne_nil_of_right_ne_nil _ (ihSecond h)
  | check owner body ih =>
    rw [result_check] at h
    show Entry.reportsOn name (body.run d).entries ≠ []
    by_cases settles : Ledger.Settles owner (body.run d).result
    · rw [Ledger.settle_of_settles settles] at h
      by_cases none : Entry.reportsOn owner (body.run d).entries = []
      · rw [if_pos none] at h
        cases h
      · rw [if_neg none] at h
        cases h
        exact none
    · rw [Ledger.settle_of_not_settles settles] at h
      exact ih h
  | attempt body catches handler resumes ihBody ihHandler =>
    rw [run] at h ⊢
    cases ends : (body.run d).result with
    | ok _ =>
      simp only [ends] at h
      cases h
    | error stop =>
      by_cases caught : catches stop = true
      · simp only [ends, if_pos caught] at h ⊢
        rw [Entry.reportsOn_append]
        cases handled : ((handler stop).run (body.run d).desk).result with
        | error e =>
          simp only [handled] at h
          exact List.append_ne_nil_of_right_ne_nil _ (ihHandler stop (handled.trans h))
        | ok _ =>
          simp only [handled] at h
          split at h
          · exact List.append_ne_nil_of_left_ne_nil (ihBody (ends.trans h)) _
          · cases h
      · simp only [ends, if_neg caught] at h ⊢
        exact ihBody (ends.trans h)

/-- At any two moments of a run, the later list of errors continues the earlier one, and all errors
are counted. -/
theorem reports_prefix {d : Desk} (balanced : ∀ n, (d.ledger n).Balanced)
    {earlier later : List Entry} (h : earlier <+: later) (n : Ledger.Name) :
    ((d.makeAll later).ledger n).Balanced ∧
      ((d.makeAll earlier).ledger n).reports.toList <+:
        ((d.makeAll later).ledger n).reports.toList := by
  obtain ⟨more, rfl⟩ := h
  constructor
  · exact (d.adds_makeAll n _).balanced (balanced n)
  · rw [Desk.makeAll_append, ((d.makeAll earlier).adds_makeAll n more).reports]
    exact List.prefix_append _ _

/-- A check ends normally exactly if its body does and no error was entered on its ledger meanwhile.
It gathers exactly these errors, in order, if there are any and the body ended normally or with
gathered errors of the same ledger. Any other stop goes through. From one entry to the next, no
ledger loses an error or miscounts. -/
theorem check_gathers (name : Ledger.Name) (body : Script ε) (d : Desk) :
    let block := (check name body).run d
    let inner := body.run d
    let errors := Entry.reportsOn name inner.entries
    block.entries = inner.entries ∧ block.desk = d.makeAll inner.entries ∧
    (block.result = .ok () ↔ inner.result = .ok () ∧ errors = []) ∧
    (∀ rs, block.result = .error (.gathered name rs) ↔ rs = errors ∧ errors ≠ [] ∧
      (inner.result = .ok () ∨ ∃ rs', inner.result = .error (.gathered name rs'))) ∧
    Ledger.gatheredMessage errors =
      (if errors.length = 1 then "1 error" else s!"{errors.length} errors") ∧
    (∀ stop, (∀ rs, stop ≠ .gathered name rs) →
      (block.result = .error stop ↔ inner.result = .error stop)) ∧
    ((∀ n, (d.ledger n).Balanced) → ∀ earlier later, earlier <+: later → later <+: inner.entries →
      ∀ n, ((d.makeAll later).ledger n).Balanced ∧
        ((d.makeAll earlier).ledger n).reports.toList <+:
          ((d.makeAll later).ledger n).reports.toList) := by
  intro block inner errors
  have result : block.result = Ledger.settle name errors inner.result := result_check name body d
  refine ⟨rfl, body.desk_run d, ?_, ?_, Ledger.gatheredMessage_eq errors, ?_, ?_⟩
  · rw [result]
    exact Ledger.settle_eq_ok_iff fun rs ends => body.reportsOn_ne_nil ends
  · intro rs
    rw [result]
    exact Ledger.settle_eq_gathered_iff
  · intro stop foreign
    rw [result]
    exact Ledger.settle_eq_stop_iff foreign
  · intro balanced earlier later continues _ n
    exact reports_prefix balanced continues n

/-- The errors of the first inner check are caught, and the outer one gathers them again together
with those of the second, which end the body before its last entry. -/
theorem check_gathers_nested :
    let error (message : String) : Script Empty := .enter (.error .a (.described message) .nowhere)
    let caught : Script Empty := .attempt (.check .a (error "second")) (fun _ => true)
      (fun _ => .check .b (.enter (.warning .b "caught" .nowhere))) (fun _ => false)
    let body : Script Empty :=
      .seq (error "first") (.seq caught (.seq (.check .a (error "third")) (error "fourth")))
    let rs : List Report :=
      [⟨.described "first", []⟩, ⟨.described "second", []⟩, ⟨.described "third", []⟩]
    ((check .a body).run {}).result = .error (.gathered .a rs) ∧
      ((check .b (check .a body)).run {}).result = .error (.gathered .a rs) ∧
      (∀ n, (({} : Desk).ledger n).Balanced) ∧
      (({} : Desk).makeAll (body.run {}).entries).a.Balanced := by
  intro error caught body rs
  obtain ⟨_, _, _, gathers, _, _, moments⟩ := check_gathers .a body {}
  have ended : (body.run {}).result = .error (.gathered .a [⟨.described "third", []⟩]) := by
    decide +kernel
  have entered : rs = Entry.reportsOn .a (body.run {}).entries := by decide +kernel
  have outer := (gathers rs).mpr ⟨entered, List.cons_ne_nil _ _, .inr ⟨_, ended⟩⟩
  obtain ⟨_, _, _, _, _, passes, _⟩ := check_gathers .b (check .a body) {}
  have foreign : ∀ rs', Ledger.Stop.gathered .a rs ≠ (.gathered .b rs' : Ledger.Stop Empty) := by
    intro rs' same
    cases same
  have empty : ∀ n, (({} : Desk).ledger n).Balanced := by
    intro n
    cases n <;> rfl
  exact ⟨outer, (passes _ foreign).mpr outer, empty,
    (moments empty _ _ (List.prefix_refl _) (List.prefix_refl _) .a).1⟩

end Script

namespace Session

/-- The script of a single step that makes an entry or looks a name up. -/
def Action.script? (f : Forest) (h : Heading) : Action → Option (Script Failure)
  | .report kind detail place => some (.enter (.error h.ledger (.reported kind detail) place))
  | .error message place => some (.enter (.error h.ledger (.described message) place))
  | .warning message place => some (.enter (.warning h.ledger message place))
  | .info message place => some (.enter (.info message place))
  | .get name =>
    match f.scope? h.table with
    | none => some (.raise (.unknownTable h.table))
    | some s =>
      match s.lookup name with
      | .ok _ => some .pass
      | .error key => some (.raise (.unknownName key))
  | _ => none

/-- A step that does not throw is passed over if it fails. -/
def Heading.guard (h : Heading) (s : Script Failure) : Script Failure :=
  if h.throws then s else .attempt s (fun _ => true) (fun _ => .pass) (fun _ => false)

/-- The script of a session, if all its steps are of that sort. -/
def Program.script? (f : Forest) : Program → Option (Script Failure)
  | .done => some .pass
  | .step h a rest => do
    let s ← a.script? f h
    let next ← rest.script? f
    return .seq (h.guard s) next
  | .check h body rest => do
    let s ← body.script? f
    let next ← rest.script? f
    return .seq (h.guard (.check h.ledger s)) next

/-- What a list of steps came to, as the result of a script. -/
def Outcome.result (o : Outcome) : Except Stop Unit :=
  match o.thrown with
  | some e => .error e
  | none => .ok ()

/-- A step that is passed over ends normally, and any other ends as its script does. -/
theorem run_guard {α : Type} (h : Heading) {s : Script Failure} {d : Desk}
    {outcome : Except Stop α} (ends : (s.run d).result = outcome.map fun _ => ()) :
    ((h.guard s).run d).desk = (s.run d).desk ∧ ((h.guard s).run d).result =
      match thrownBy h outcome with
      | some e => .error e
      | none => .ok () := by
  rw [Heading.guard]
  cases throws : h.throws with
  | true =>
    refine ⟨rfl, ends.trans ?_⟩
    cases outcome with
    | ok a => rfl
    | error e => simp [thrownBy, throws, Except.map]
  | false =>
    rw [if_neg Bool.false_ne_true, Script.run]
    cases outcome with
    | ok a =>
      simp only [Except.map] at ends
      simp only [ends, thrownBy, and_self]
    | error e =>
      simp only [Except.map] at ends
      simp [ends, thrownBy, throws, Script.run]

/-- A step with a script does to the desk what the script does, and fails if the script does. -/
theorem perform_script (settings : Settings) {h : Heading} {a : Action} {st : State}
    {s : Script Failure} (known : a.script? st.forest h = some s) :
    ∃ outcome : Except Failure Answer,
      (s.run st.desk).result = (outcome.mapError .other).map (fun _ => ()) ∧
      (perform settings h a).run st = match outcome with
        | .ok answer => .ok answer { st with desk := (s.run st.desk).desk }
        | .error e => .error e { st with desk := (s.run st.desk).desk } := by
  cases a with
  | report kind detail place =>
    cases known
    exact ⟨.ok .nothing, rfl, rfl⟩
  | error message place =>
    cases known
    exact ⟨.ok .nothing, rfl, rfl⟩
  | warning message place =>
    cases known
    exact ⟨.ok .nothing, rfl, rfl⟩
  | info message place =>
    cases known
    exact ⟨.ok .nothing, rfl, rfl⟩
  | get name =>
    rw [Action.script?] at known
    rw [perform, EStateM.run_bind, run_scope]
    cases here : st.forest.scope? h.table with
    | none =>
      simp only [here] at known ⊢
      cases known
      exact ⟨.error (.unknownTable h.table), rfl, rfl⟩
    | some table =>
      simp only [here] at known ⊢
      cases looked : table.lookup name with
      | ok v =>
        simp only [looked] at known ⊢
        cases known
        exact ⟨.ok (.number v), rfl, rfl⟩
      | error key =>
        simp only [looked] at known ⊢
        cases known
        exact ⟨.error (.unknownName key), rfl, rfl⟩
  | _ => cases known

/-- What follows a guarded step is left out if the step throws, both in a session and in its script.
-/
theorem run_guard_seq {α : Type} (h : Heading) (next : Script Failure) {s : Script Failure}
    {d : Desk} {outcome : Except Stop α} (ends : (s.run d).result = outcome.map fun _ => ()) :
    ((Script.seq (h.guard s) next).run d).desk =
        (match thrownBy h outcome with
        | some _ => (s.run d).desk
        | none => (next.run (s.run d).desk).desk) ∧
      ((Script.seq (h.guard s) next).run d).result =
        match thrownBy h outcome with
        | some e => .error e
        | none => (next.run (s.run d).desk).result := by
  obtain ⟨desk, result⟩ := run_guard h ends
  cases throws : thrownBy h outcome with
  | some e =>
    rw [throws] at result
    rw [Script.run_seq_of_error result]
    exact ⟨desk, result⟩
  | none =>
    rw [throws] at result
    rw [Script.run_seq_of_ok result, desk]
    exact ⟨rfl, rfl⟩

/-- A check is settled by what its body came to and left on the desk. -/
theorem run_check (settings : Settings) (h : Heading) (body rest : Program) (st : State) :
    run settings (.check h body rest) st =
      let b := run settings body st
      let r := run settings rest b.state
      let outcome := Ledger.settle h.ledger ((b.state.desk.ledger h.ledger).reportsSince
        (st.desk.ledger h.ledger).reports.size) b.result
      match thrownBy h outcome with
      | some e => ⟨.check outcome b.transcript .done, some e, b.state⟩
      | none => ⟨.check outcome b.transcript r.transcript, r.thrown, r.state⟩ := rfl

/-- A session that only makes entries, looks names up and checks such steps does to the desk what
its script does, and ends as the script does. -/
theorem run_script (settings : Settings) {p : Program} {st : State} {s : Script Failure}
    (known : p.script? st.forest = some s) :
    (run settings p st).state = { st with desk := (s.run st.desk).desk } ∧
      (run settings p st).result = (s.run st.desk).result := by
  induction p generalizing st s with
  | done =>
    cases known
    exact ⟨rfl, rfl⟩
  | step h a rest ih =>
    obtain ⟨t, ht, next, hnext, rfl⟩ : ∃ t, a.script? st.forest h = some t ∧
        ∃ next, rest.script? st.forest = some next ∧ Script.seq (h.guard t) next = s := by
      simpa [Program.script?, Option.bind_eq_some_iff] using known
    obtain ⟨outcome, ends, ran⟩ := perform_script settings ht
    obtain ⟨desk, result⟩ := run_guard_seq h next ends
    rw [desk, result]
    cases outcome with
    | ok answer =>
      simp only [run, ran]
      exact ih hnext
    | error e =>
      simp only [run, ran, Except.mapError]
      cases thrownBy h (.error (Ledger.Stop.other e) : Except Stop Answer) with
      | some stop => exact ⟨rfl, rfl⟩
      | none => exact ih hnext
  | check h body rest ihBody ihRest =>
    obtain ⟨t, ht, next, hnext, rfl⟩ : ∃ t, body.script? st.forest = some t ∧
        ∃ next, rest.script? st.forest = some next ∧
          Script.seq (h.guard (.check h.ledger t)) next = s := by
      simpa [Program.script?, Option.bind_eq_some_iff] using known
    obtain ⟨inner, ended⟩ := ihBody ht
    have ends : ((Script.check h.ledger t).run st.desk).result =
        ((Script.check h.ledger t).run st.desk).result.map fun _ => () := by
      cases ((Script.check h.ledger t).run st.desk).result <;> rfl
    obtain ⟨desk, result⟩ := run_guard_seq h next ends
    rw [desk, result]
    simp only [run_check, inner, ended]
    cases throws : thrownBy h ((Script.check h.ledger t).run st.desk).result with
    | some stop =>
      rw [Script.run] at throws
      simp only [throws]
      exact ⟨rfl, rfl⟩
    | none =>
      rw [Script.run] at throws
      simp only [throws]
      exact ihRest hnext

end Session

end AsmOperand
