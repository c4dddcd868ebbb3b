import AsmOperand.Proofs.Sessions
import Mathlib.Data.List.Nodup

/-!
# What a table lists

Tables take no name twice and keep their own names whole, so a listing never repeats a name, and
definitions only ever add to the end of a table's own part. What is listed is what is stored
somewhere in the chain.

A listed name need not be found. A listing passes on what lies further out as it is kept there,
while a name that is looked up is cut by every table it passes. The two agree about a name that
reaches the table where it is stored; nothing is said here about how many names do.
-/

namespace AsmOperand

namespace Bindings

theorem mem_names {b : Bindings} {name : Text} : name ∈ b.names ↔ ∃ v, b.find? name = some v := by
  induction b with
  | nil => simp [names, find?]
  | cons entry rest ih =>
    simp only [names, find?] at ih
    simp only [names, find?, List.map_cons, List.mem_cons, List.find?_cons]
    by_cases same : entry.1 = name
    · simp [same]
    · simp [same, Ne.symm same, ih]

end Bindings

/-- No name stands in the table twice, and none is longer than the table keeps. -/
structure Table.Orderly (t : Table) : Prop where
  distinct : t.names.Nodup
  whole : ∀ name ∈ t.names, t.clip name = name

namespace Table

instance (t : Table) : Decidable t.Orderly :=
  decidable_of_iff (t.names.Nodup ∧ ∀ name ∈ t.names, t.clip name = name)
    ⟨fun h => ⟨h.1, h.2⟩, fun h => ⟨h.distinct, h.whole⟩⟩

theorem find?_eq_none {t : Table} {name : Text} : t.find? name = none ↔ name ∉ t.names := by
  simp [find?, names]

end Table

namespace Scope

/-- The value under exactly this name in the innermost table that has it, or else the given one. -/
def storedIn (given : Bindings) : List Table → Text → Option Int
  | [], name => given.find? name
  | t :: outer, name =>
    match t.find? name with
    | some symbol => some symbol.value
    | none => storedIn given outer name

def stored? (s : Scope) (name : Text) : Option Int := storedIn s.given (s.inner :: s.outer) name

/-- No table cuts the name before one is reached that has it. -/
def Reaches : List Table → Text → Prop
  | [], _ => True
  | t :: outer, name => t.clip name = name ∧ (name ∈ t.names ∨ Reaches outer name)

instance decidableReaches : (tables : List Table) → (name : Text) → Decidable (Reaches tables name)
  | [], _ => inferInstanceAs (Decidable True)
  | t :: outer, name =>
    have := decidableReaches outer name
    inferInstanceAs (Decidable (t.clip name = name ∧ (name ∈ t.names ∨ Reaches outer name)))

section Chain
variable {given : Bindings} {tables : List Table}

theorem nodup_namesIn (distinct : given.names.Nodup) (orderly : ∀ t ∈ tables, t.Orderly) :
    (namesIn given tables).Nodup := by
  induction tables with
  | nil => exact distinct
  | cons t outer ih =>
    have own : t.names.Nodup := (orderly t List.mem_cons_self).distinct
    have others := ih fun u hu => orderly u (List.mem_cons_of_mem t hu)
    apply own.append (others.filter _)
    intro name here further
    exact of_decide_eq_true (List.mem_filter.mp further).2 here

/-- Exactly the names with a stored value are listed. -/
theorem mem_namesIn {name : Text} :
    name ∈ namesIn given tables ↔ ∃ v, storedIn given tables name = some v := by
  induction tables with
  | nil => exact Bindings.mem_names
  | cons t outer ih =>
    simp only [namesIn, storedIn, List.mem_append, List.mem_filter, decide_eq_true_eq]
    cases own : t.find? name with
    | none => simp [Table.find?_eq_none.mp own, ih]
    | some symbol =>
      have known : name ∈ t.names := by
        by_contra unknown
        rw [Table.find?_eq_none.mpr unknown] at own
        cases own
      simp [known]

theorem lookupIn_of_reaches {name : Text} {v : Int} (reaches : Reaches tables name)
    (stored : storedIn given tables name = some v) : lookupIn given tables name = .ok v := by
  induction tables with
  | nil =>
    rw [storedIn] at stored
    rw [lookupIn, stored]
  | cons t outer ih =>
    obtain ⟨whole, further⟩ := reaches
    rw [storedIn] at stored
    rw [lookupIn, whole]
    cases own : t.find? name with
    | some symbol =>
      rw [own] at stored
      cases stored
      rfl
    | none =>
      rw [own] at stored
      exact ih (further.resolve_left (Table.find?_eq_none.mp own)) stored

end Chain

section Entries
variable {s : Scope}

theorem mapM_lookup {names : List Text} {es : List (Text × Int)} :
    (names.mapM fun name => do return (name, ← s.lookup name)) = .ok es ↔
      es.map Prod.fst = names ∧ ∀ e ∈ es, s.lookup e.1 = .ok e.2 := by
  induction names generalizing es with
  | nil =>
    rw [List.mapM_nil, List.map_eq_nil_iff]
    constructor
    · rintro ⟨⟩
      exact ⟨rfl, fun _ h => (List.not_mem_nil h).elim⟩
    · rintro ⟨rfl, _⟩
      rfl
  | cons name rest ih =>
    rw [List.mapM_cons]
    constructor
    · intro h
      cases looked : s.lookup name with
      | error key =>
        rw [looked] at h
        cases h
      | ok v =>
        cases listed : rest.mapM fun name => do return (name, ← s.lookup name) with
        | error key =>
          simp only [looked, listed] at h
          cases h
        | ok others =>
          simp only [looked, listed] at h
          cases h
          obtain ⟨names, values⟩ := ih.mp listed
          exact ⟨congrArg (name :: ·) names, List.forall_mem_cons.mpr ⟨looked, values⟩⟩
    · rintro ⟨names, values⟩
      obtain ⟨⟨_, v⟩, others, rfl, rfl, more⟩ := List.map_eq_cons_iff.mp names
      obtain ⟨looked, values⟩ := List.forall_mem_cons.mp values
      simp only [looked, ih.mpr ⟨more, values⟩]
      rfl

/-- All names are listed with their values, unless one has none. -/
theorem entries_eq_ok {es : List (Text × Int)} : s.entries = .ok es ↔
    es.map Prod.fst = s.names ∧ ∀ e ∈ es, s.lookup e.1 = .ok e.2 := mapM_lookup

theorem exists_entries : (∃ es, s.entries = .ok es) ↔ ∀ name ∈ s.names, s.contains name = true := by
  simp only [entries_eq_ok]
  constructor
  · rintro ⟨es, names, values⟩ name listed
    rw [← names] at listed
    obtain ⟨e, known, rfl⟩ := List.mem_map.mp listed
    exact (s.contains_iff e.1).mpr ⟨e.2, values e known⟩
  · intro found
    have value : ∀ name ∈ s.names, s.lookup name = .ok ((s.lookup? name).getD 0) := by
      intro name listed
      obtain ⟨v, looked⟩ := (s.contains_iff name).mp (found name listed)
      rw [lookup?, looked]
      rfl
    refine ⟨s.names.map fun name => (name, (s.lookup? name).getD 0), ?_, ?_⟩
    · simp [Function.comp_def]
    · simpa using value

end Entries

section Store
variable {s : Scope} {name : Text} (fresh : ∀ v, s.lookup name ≠ .ok v) (value : Int)
  (source : Option Excerpt)
include fresh

theorem names_store : (s.store name value source).inner.names =
    s.inner.names ++ [s.inner.clip name] := by
  rw [Table.names, symbols_store fresh, List.map_append]
  rfl

theorem orderly_store (sized : s.inner.Sized) (orderly : s.inner.Orderly) :
    (s.store name value source).inner.Orderly := by
  have unknown : s.inner.clip name ∉ s.inner.names :=
    Table.find?_eq_none.mp (find?_eq_none_of_lookup fresh)
  constructor
  · rw [names_store fresh]
    exact List.Nodup.append orderly.distinct (List.nodup_singleton _) (by simpa using unknown)
  · intro other known
    rw [names_store fresh, List.mem_append, List.mem_singleton] at known
    rw [store, Table.clip_put]
    rcases known with before | rfl
    · exact orderly.whole other before
    · exact Table.clip_clip sized name

end Store

end Scope

/-- A map of given names has none of them twice. -/
def Parent.Orderly : Parent → Prop
  | .given b => b.names.Nodup
  | _ => True

instance : (p : Parent) → Decidable p.Orderly
  | .nothing => inferInstanceAs (Decidable True)
  | .given b => inferInstanceAs (Decidable b.names.Nodup)
  | .table _ => inferInstanceAs (Decidable True)

namespace Forest

def Orderly (f : Forest) : Prop := ∀ p ∈ f, p.table.Orderly ∧ p.parent.Orderly

instance (f : Forest) : Decidable f.Orderly :=
  inferInstanceAs (Decidable (∀ p ∈ f, p.table.Orderly ∧ p.parent.Orderly))

theorem orderly_surroundings {f : Forest} (orderly : f.Orderly) (i : Nat) :
    (∀ t ∈ (f.surroundings i).1, t.Orderly) ∧ (f.surroundings i).2.names.Nodup := by
  have none_outside : (∀ t ∈ ([] : List Table), t.Orderly) ∧ (Bindings.names []).Nodup :=
    ⟨fun _ h => (List.not_mem_nil h).elim, List.nodup_nil⟩
  -- The parent of a table comes before it, so it is settled first.
  induction i using Nat.strongRecOn with
  | ind i ih =>
    cases parent : f.parentOf i with
    | nothing =>
      rw [surroundings, parent]
      exact none_outside
    | given b =>
      rw [surroundings, parent]
      refine ⟨none_outside.1, ?_⟩
      rw [parentOf] at parent
      cases planted : f[i]? with
      | none =>
        rw [planted] at parent
        cases parent
      | some p =>
        rw [planted] at parent
        have known := (orderly p (Array.mem_of_getElem? planted)).2
        rwa [show p.parent = .given b from parent] at known
    | table q =>
      by_cases earlier : q < i
      · rw [surroundings_eq parent earlier]
        cases outer : f.scope? q with
        | none => exact none_outside
        | some u =>
          obtain ⟨p, planted, rfl⟩ := Option.map_eq_some_iff.mp outer
          obtain ⟨tables, given⟩ := ih q earlier
          have next := (orderly p (Array.mem_of_getElem? planted)).1
          exact ⟨List.forall_mem_cons.mpr ⟨next, tables⟩, given⟩
      · rw [surroundings, parent]
        simp only [if_neg earlier]
        exact none_outside

theorem orderly_of_scope? {f : Forest} (orderly : f.Orderly) {i : Nat} {s : Scope}
    (h : f.scope? i = some s) :
    (∀ t ∈ s.inner :: s.outer, t.Orderly) ∧ s.given.names.Nodup := by
  obtain ⟨p, planted, rfl⟩ := Option.map_eq_some_iff.mp h
  obtain ⟨tables, given⟩ := orderly_surroundings orderly i
  exact ⟨List.forall_mem_cons.mpr ⟨(orderly p (Array.mem_of_getElem? planted)).1, tables⟩, given⟩

section Defines
variable {f g : Forest} (sized : f.Sized)
include sized

theorem orderly_of_defines (orderly : f.Orderly) (step : f.Defines g) : g.Orderly := by
  obtain ⟨i, s, s', here, ⟨name, kept, value, source, defined⟩, rfl⟩ := step
  obtain ⟨fresh, _, rfl⟩ := Scope.eq_store_of_define (sized_of_scope? sized here) defined
  intro p hp
  obtain ⟨j, hj⟩ := Array.getElem?_of_mem hp
  rw [getElem?_setTable] at hj
  by_cases same : i = j
  · subst same
    rw [if_pos rfl] at hj
    obtain ⟨old, hold, rfl⟩ := Option.map_eq_some_iff.mp hj
    have inner := (orderly_of_scope? orderly here).1 s.inner List.mem_cons_self
    exact ⟨Scope.orderly_store fresh value source (sized_of_scope? sized here) inner,
      (orderly old (Array.mem_of_getElem? hold)).2⟩
  · rw [if_neg same] at hj
    exact orderly p (Array.mem_of_getElem? hj)

/-- A definition adds to the end of the names of one table. -/
theorem names_of_defines (step : f.Defines g) {j : Nat} {s t : Scope} (before : f.scope? j = some s)
    (after : g.scope? j = some t) : s.inner.names <+: t.inner.names := by
  obtain ⟨i, u, u', here, ⟨name, kept, value, source, defined⟩, rfl⟩ := step
  obtain ⟨fresh, _, rfl⟩ := Scope.eq_store_of_define (sized_of_scope? sized here) defined
  by_cases same : i = j
  · subst same
    obtain rfl : u = s := Option.some.inj (here.symm.trans before)
    obtain rfl := Option.some.inj ((scope?_setTable f _ here).symm.trans after)
    exact ⟨[u.inner.clip name], (Scope.names_store fresh value source).symm⟩
  · obtain ⟨p, planted, rfl⟩ := Option.map_eq_some_iff.mp before
    obtain ⟨p', planted', rfl⟩ := Option.map_eq_some_iff.mp after
    rw [getElem?_setTable, if_neg same, planted] at planted'
    cases planted'
    exact List.prefix_rfl

theorem orderly_of_grows (orderly : f.Orderly) (grows : f.Grows g) : g.Orderly := by
  induction grows with
  | refl => exact orderly
  | tail before step ih => exact orderly_of_defines (sized_of_grows sized before) ih step

theorem names_of_grows (grows : f.Grows g) {j : Nat} {s t : Scope} (before : f.scope? j = some s)
    (after : g.scope? j = some t) : s.inner.names <+: t.inner.names := by
  induction grows generalizing t with
  | refl =>
    obtain rfl : s = t := Option.some.inj (before.symm.trans after)
    exact List.prefix_rfl
  | tail earlier step ih =>
    obtain ⟨now, known, _⟩ := scope?_of_grows sized earlier before
    exact (ih known).trans (names_of_defines (sized_of_grows sized earlier) step known after)

end Defines

end Forest

namespace Session

/-- In every table at every moment of a session: names are listed once each, first the table's own
and then those further out, and all that follows only adds to the end of the table's own. Listed are
exactly the names with a stored value. A name is found with its stored value if it reaches the table
that has it. All names are listed with values exactly if all are found. -/
theorem listed_names (settings : Settings) {start : State} (sized : start.forest.Sized)
    (orderly : start.forest.Orderly) (p : Program) {i : Nat} {s : Scope}
    (here : (run settings p start).state.forest.scope? i = some s) :
    let now := (run settings p start).state
    let inherited := Scope.namesIn s.given s.outer
    s.names.Nodup ∧ s.size = s.names.length ∧
    s.names = s.inner.names ++ inherited.filter (fun name => name ∉ s.inner.names) ∧
    (∀ q t, (run settings q now).state.forest.scope? i = some t → s.inner.names <+: t.inner.names) ∧
    (∀ name, name ∈ s.names ↔ ∃ v, s.stored? name = some v) ∧
    (∀ name v, s.stored? name = some v → Scope.Reaches (s.inner :: s.outer) name →
      s.contains name = true ∧ s.lookup name = .ok v) ∧
    ((∃ es, s.entries = .ok es) ↔ ∀ name ∈ s.names, s.contains name = true) ∧
    (∀ es, s.entries = .ok es → es.map Prod.fst = s.names ∧
      ∀ e ∈ es, Scope.Reaches (s.inner :: s.outer) e.1 → s.stored? e.1 = some e.2) := by
  intro now inherited
  have grown := (run_grows settings p start).forest
  have sizedNow : now.forest.Sized := Forest.sized_of_grows sized grown
  obtain ⟨tables, given⟩ :=
    Forest.orderly_of_scope? (Forest.orderly_of_grows sized orderly grown) here
  have stored (name : Text) : name ∈ s.names ↔ ∃ v, s.stored? name = some v := Scope.mem_namesIn
  have found (name : Text) (v : Int) (known : s.stored? name = some v)
      (reaches : Scope.Reaches (s.inner :: s.outer) name) :
      s.contains name = true ∧ s.lookup name = .ok v := by
    have looked : s.lookup name = .ok v := Scope.lookupIn_of_reaches reaches known
    exact ⟨(s.contains_iff name).mpr ⟨v, looked⟩, looked⟩
  refine ⟨Scope.nodup_namesIn given tables, rfl, rfl, ?_, stored, found, Scope.exists_entries, ?_⟩
  · intro q t later
    exact Forest.names_of_grows sizedNow (run_grows settings q now).forest here later
  · intro es listed
    obtain ⟨names, values⟩ := Scope.entries_eq_ok.mp listed
    refine ⟨names, ?_⟩
    intro e known reaches
    obtain ⟨v, kept⟩ := (stored e.1).mp (names ▸ List.mem_map_of_mem known)
    have looked := (found e.1 v kept reaches).2
    rw [values e known] at looked
    cases looked
    exact kept

/-- The inner table has a `B` of its own, and keeps as much of a name as `LONG` needs. -/
theorem listed_names_shadowed :
    let start : State :=
      ⟨#[⟨⟨8, []⟩, .given [("PC".toList, 7)]⟩, ⟨⟨4, []⟩, .table 0⟩], .fixed 0, {}, 0⟩
    let p : Program :=
      .step ⟨1, .a, false⟩ (.define "B".toList 1 none)
        (.step ⟨0, .a, false⟩ (.define "B".toList 2 none)
          (.step ⟨0, .a, false⟩ (.define "LONG".toList 3 none) .done))
    let now := (run Settings.default p start).state
    start.forest.Sized ∧ start.forest.Orderly ∧ ∃ s, now.forest.scope? 1 = some s ∧
      s.names = ["B".toList, "LONG".toList, "PC".toList] ∧
      s.contains "LONG".toList = true ∧ s.lookup "LONG".toList = .ok 3 := by
  intro start p now
  have sized : start.forest.Sized := by decide
  have orderly : start.forest.Orderly := by decide
  have here : now.forest.scope? 1 = some ⟨⟨4, [⟨"B".toList, 1, none⟩]⟩,
      [⟨8, [⟨"B".toList, 2, none⟩, ⟨"LONG".toList, 3, none⟩]⟩], [("PC".toList, 7)]⟩ := by
    decide +kernel
  obtain ⟨_, _, _, _, _, found, _, _⟩ := listed_names Settings.default sized orderly p here
  exact ⟨sized, orderly, _, here, by decide, found "LONG".toList 3 (by decide) (by decide)⟩

/-- The inner table keeps four characters and lists a name of eight that it does not find. -/
theorem listed_not_found :
    let start : State := ⟨#[⟨⟨8, []⟩, .nothing⟩, ⟨⟨4, []⟩, .table 0⟩], .fixed 0, {}, 0⟩
    let p : Program := .step ⟨0, .a, false⟩ (.define "LONGNAME".toList 1 none) .done
    ∃ s, (run Settings.default p start).state.forest.scope? 1 = some s ∧
      s.names = ["LONGNAME".toList] ∧ s.stored? "LONGNAME".toList = some 1 ∧
      s.contains "LONGNAME".toList = false ∧ s.lookup "LONGNAME".toList = .error "LONG".toList ∧
      s.entries = .error "LONG".toList := by
  intro start p
  have here : (run Settings.default p start).state.forest.scope? 1 =
      some ⟨⟨4, []⟩, [⟨8, [⟨"LONGNAME".toList, 1, none⟩]⟩], []⟩ := by
    decide +kernel
  refine ⟨_, here, ?_, ?_, ?_, ?_, ?_⟩ <;> decide +kernel

end Session

end AsmOperand
