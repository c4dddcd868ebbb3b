import AsmOperand.Scope.Forest
import Mathlib.Logic.Relation

/-!
# Chains of symbol tables

Where every table keeps at least one character of a name, a name that has been cut once is not cut
again by the same table. Then testing for a name and looking it up agree, a definition is refused
exactly for a name that has a value, and a definition that is not refused gives a value to the names
that are kept like it and to no others.

Tables that share parents see each other's definitions. A value that was found once is found ever
after, in whichever table symbols are defined meanwhile: a table takes no name that it can already
look up further out. Nothing is said here about the order in which names are listed.
-/

namespace AsmOperand

theorem Text.cut_eq_take (t : Text) {k : Int} (h : 0 ≤ k) : t.cut k = t.take k.toNat := by
  obtain ⟨n, rfl⟩ := Int.eq_ofNat_of_zero_le h
  exact Text.cut_natCast t n

namespace Table

/-- Names count up to at least one character. -/
def Sized (t : Table) : Prop := 1 ≤ t.symbolSize

instance (t : Table) : Decidable t.Sized := inferInstanceAs (Decidable (1 ≤ t.symbolSize))

theorem symbolSize_put (t : Table) (s : Symbol) : (t.put s).symbolSize = t.symbolSize := by
  simp only [put]
  split <;> rfl

theorem clip_put (t : Table) (s : Symbol) (name : Text) : (t.put s).clip name = t.clip name := by
  rw [clip, clip, symbolSize_put]

section Sized
variable {t : Table} (sized : t.Sized)
include sized

theorem clip_eq_take (name : Text) : t.clip name = name.take t.symbolSize.toNat := by
  have positive : 1 ≤ t.symbolSize := sized
  exact Text.cut_eq_take name (by omega)

theorem clip_clip (name : Text) : t.clip (t.clip name) = t.clip name := by
  rw [clip_eq_take sized, clip_eq_take sized, List.take_take, Nat.min_self]

end Sized

end Table

namespace Scope

theorem containsIn_iff (given : Bindings) (tables : List Table) (name : Text) :
    containsIn given tables name = true ↔ ∃ v, lookupIn given tables name = .ok v := by
  induction tables generalizing name with
  | nil =>
    simp only [containsIn, lookupIn]
    cases given.find? name with
    | none => simp
    | some v => simp
  | cons t outer ih =>
    simp only [containsIn, lookupIn, Bool.or_eq_true, ih]
    cases t.find? (t.clip name) with
    | none => simp
    | some s => simp

/-- A name is contained exactly if it has a value. -/
theorem contains_iff (s : Scope) (name : Text) :
    s.contains name = true ↔ ∃ v, s.lookup name = .ok v :=
  containsIn_iff s.given (s.inner :: s.outer) name

/-- A name is looked up in the innermost table, and then further out. -/
theorem lookup_eq (s : Scope) (name : Text) : s.lookup name =
    match s.inner.find? (s.inner.clip name) with
    | some symbol => .ok symbol.value
    | none => lookupIn s.given s.outer (s.inner.clip name) := rfl

theorem lookup?_eq_some_iff {s : Scope} {name : Text} {v : Int} :
    s.lookup? name = some v ↔ s.lookup name = .ok v := by
  rw [lookup?]
  cases s.lookup name with
  | ok _ => exact ⟨fun h => congrArg _ (Option.some.inj h), fun h => congrArg _ (Except.ok.inj h)⟩
  | error _ => exact iff_of_false (by rintro ⟨⟩) (by rintro ⟨⟩)

theorem find?_eq_none_of_lookup {s : Scope} {name : Text} (h : ∀ v, s.lookup name ≠ .ok v) :
    s.inner.find? (s.inner.clip name) = none := by
  rw [lookup_eq] at h
  cases found : s.inner.find? (s.inner.clip name) with
  | none => rfl
  | some symbol =>
    rw [found] at h
    exact absurd rfl (h symbol.value)

/-- What a definition leaves behind that is not refused. -/
def store (s : Scope) (name : Text) (value : Int) (source : Option Excerpt) : Scope :=
  { s with inner := s.inner.put ⟨s.inner.clip name, value, source⟩ }

theorem eq_store {s s' : Scope} {name kept : Text} {value : Int} {source : Option Excerpt}
    (h : s.define name value source = .ok (kept, s')) : s' = s.store name value source := by
  simp only [define] at h
  split at h
  · cases h
  · cases h
    rfl

section Sized
variable {s : Scope} (sized : s.inner.Sized) (name : Text)
include sized

theorem lookup_clip : s.lookup (s.inner.clip name) = s.lookup name := by
  rw [lookup_eq, lookup_eq, Table.clip_clip sized]

theorem define_eq (value : Int) (source : Option Excerpt) : s.define name value source =
    match s.lookup name with
    | .ok _ => .error ⟨.redefined (s.inner.clip name),
        [source, s.inner.sourceOf (s.inner.clip name)].filterMap id⟩
    | .error _ => .ok (s.inner.clip name, s.store name value source) := by
  have tested := s.contains_iff (s.inner.clip name)
  rw [lookup_clip sized] at tested
  simp only [define]
  cases looked : s.lookup name with
  | ok v => rw [if_pos (tested.mpr ⟨v, looked⟩)]
  | error key =>
    rw [if_neg]
    · rfl
    · intro known
      obtain ⟨v, found⟩ := tested.mp known
      rw [looked] at found
      cases found

variable {name} {value : Int} {source : Option Excerpt}

/-- A definition that is not refused is of a name that had no value, and stores it. -/
theorem eq_store_of_define {kept : Text} {s' : Scope}
    (h : s.define name value source = .ok (kept, s')) :
    (∀ v, s.lookup name ≠ .ok v) ∧ kept = s.inner.clip name ∧ s' = s.store name value source := by
  rw [define_eq sized] at h
  cases looked : s.lookup name with
  | ok v =>
    rw [looked] at h
    cases h
  | error key =>
    rw [looked] at h
    cases h
    refine ⟨?_, rfl, rfl⟩
    intro v found
    cases found

end Sized

section Store
variable {s : Scope} {name : Text} (fresh : ∀ v, s.lookup name ≠ .ok v) (value : Int)
  (source : Option Excerpt)
include fresh

theorem symbols_store : (s.store name value source).inner.symbols =
    s.inner.symbols ++ [⟨s.inner.clip name, value, source⟩] :=
  Table.symbols_put_of_find?_eq_none (find?_eq_none_of_lookup fresh)

/-- What a name is afterwards depends on whether it is kept like the one that was defined. -/
theorem lookup_store (k : Text) : (s.store name value source).lookup k =
    if s.inner.clip k = s.inner.clip name then .ok value else s.lookup k := by
  have put := Table.find?_put_of_find?_eq_none (s := ⟨s.inner.clip name, value, source⟩)
    (find?_eq_none_of_lookup fresh) (s.inner.clip k)
  rw [lookup_eq, lookup_eq]
  simp only [store, Table.clip_put, put]
  by_cases same : s.inner.clip k = s.inner.clip name
  · simp [same, find?_eq_none_of_lookup fresh]
  · simp [same, Ne.symm same]

theorem lookup_store_of_lookup {k : Text} {v : Int} (h : s.lookup k = .ok v) :
    (s.store name value source).lookup k = .ok v := by
  rw [lookup_store fresh, if_neg, h]
  intro same
  have alike : s.lookup k = s.lookup name := by rw [lookup_eq, lookup_eq, same]
  exact fresh v (alike.symm.trans h)

end Store

/-- The scope takes a definition. -/
def Defines (s s' : Scope) : Prop :=
  ∃ name kept value source, s.define name value source = .ok (kept, s')

/-- Definitions were taken, one after the other. -/
def Grows : Scope → Scope → Prop := Relation.ReflTransGen Defines

instance : Std.Refl Grows := inferInstanceAs (Std.Refl (Relation.ReflTransGen Defines))

instance : IsTrans Scope Grows := inferInstanceAs (IsTrans Scope (Relation.ReflTransGen Defines))

theorem outer_of_grows {s s' : Scope} (h : s.Grows s') :
    s'.outer = s.outer ∧ s'.given = s.given := by
  induction h with
  | refl => exact ⟨rfl, rfl⟩
  | tail _ step ih =>
    obtain ⟨name, kept, value, source, defined⟩ := step
    obtain ⟨outer, given⟩ := outer_of_define defined
    exact ⟨outer.trans ih.1, given.trans ih.2⟩

end Scope

namespace Forest

/-- Every table keeps at least one character of a name. -/
def Sized (f : Forest) : Prop := ∀ p ∈ f, p.table.Sized

instance (f : Forest) : Decidable f.Sized :=
  inferInstanceAs (Decidable (∀ p ∈ f, p.table.Sized))

section SetTable
variable (f : Forest) {i : Nat} (t : Table)

theorem getElem?_setTable (j : Nat) : (f.setTable i t)[j]? =
    if i = j then f[j]?.map fun p => { p with table := t } else f[j]? := by
  rw [setTable, Array.getElem?_modify]

theorem parentOf_setTable (j : Nat) : (f.setTable i t).parentOf j = f.parentOf j := by
  rw [parentOf, parentOf, getElem?_setTable]
  by_cases same : i = j
  · rw [if_pos same]
    cases f[j]? with
    | none => rfl
    | some p => rfl
  · rw [if_neg same]

/-- A table is not among those outside its own ancestors. -/
theorem surroundings_setTable {j : Nat} (h : j ≤ i) :
    (f.setTable i t).surroundings j = f.surroundings j := by
  induction j using Nat.strongRecOn with
  | ind j ih =>
    rw [surroundings, surroundings, parentOf_setTable]
    cases f.parentOf j with
    | nothing => rfl
    | given b => rfl
    | table q =>
      by_cases earlier : q < j
      · have other : i ≠ q := by omega
        simp only [if_pos earlier, getElem?_setTable, if_neg other, ih q earlier (by omega)]
      · simp only [if_neg earlier]

theorem scope?_setTable {s : Scope} (h : f.scope? i = some s) :
    (f.setTable i t).scope? i = some { s with inner := t } := by
  obtain ⟨p, hp, rfl⟩ := Option.map_eq_some_iff.mp h
  have here : (f.setTable i t)[i]? = some { p with table := t } := by
    rw [getElem?_setTable, if_pos rfl, hp]
    rfl
  rw [scope?, here, surroundings_setTable f t (Nat.le_refl i)]
  rfl

theorem setTable_setTable (u : Table) : (f.setTable i t).setTable i u = f.setTable i u := by
  apply Array.ext_getElem?
  intro j
  simp only [getElem?_setTable]
  by_cases same : i = j
  · simp only [if_pos same, Option.map_map]
    rfl
  · simp only [if_neg same]

end SetTable

theorem setTable_self {f : Forest} {i : Nat} {s : Scope} (h : f.scope? i = some s) :
    f.setTable i s.inner = f := by
  obtain ⟨p, hp, rfl⟩ := Option.map_eq_some_iff.mp h
  apply Array.ext_getElem?
  intro j
  rw [getElem?_setTable]
  by_cases same : i = j
  · rw [if_pos same, ← same, hp]
    rfl
  · rw [if_neg same]

/-- What lies outside a table with a parent is the scope of the parent. -/
theorem surroundings_eq {f : Forest} {i q : Nat} (h : f.parentOf i = .table q) (earlier : q < i) :
    f.surroundings i =
      match f.scope? q with
      | none => ([], [])
      | some s => (s.inner :: s.outer, s.given) := by
  rw [surroundings, h]
  simp only [if_pos earlier, scope?]
  cases f[q]? with
  | none => rfl
  | some p => rfl

/-- One table of the forest takes a definition. -/
def Defines (f g : Forest) : Prop :=
  ∃ (i : Nat) (s s' : Scope), f.scope? i = some s ∧ s.Defines s' ∧ g = f.setTable i s'.inner

/-- Definitions were taken, one after the other, by whichever tables. -/
def Grows : Forest → Forest → Prop := Relation.ReflTransGen Defines

instance : Std.Refl Grows := inferInstanceAs (Std.Refl (Relation.ReflTransGen Defines))

instance : IsTrans Forest Grows := inferInstanceAs (IsTrans Forest (Relation.ReflTransGen Defines))

/-- Putting back what was built up in a scope is taking its definitions one after the other. -/
theorem grows_setTable {f : Forest} {i : Nat} {s s' : Scope} (h : f.scope? i = some s)
    (grows : s.Grows s') : f.Grows (f.setTable i s'.inner) := by
  induction grows with
  | refl =>
    rw [setTable_self h]
    exact .refl
  | tail before step ih =>
    rename_i now next
    obtain ⟨outer, given⟩ := Scope.outer_of_grows before
    have here : (f.setTable i now.inner).scope? i = some now := by
      rw [scope?_setTable f _ h, ← outer, ← given]
    refine ih.tail ⟨i, now, next, here, step, ?_⟩
    rw [setTable_setTable]

theorem sized_of_scope? {f : Forest} (sized : f.Sized) {i : Nat} {s : Scope}
    (h : f.scope? i = some s) : s.inner.Sized := by
  obtain ⟨p, hp, rfl⟩ := Option.map_eq_some_iff.mp h
  exact sized p (Array.mem_of_getElem? hp)

theorem sized_of_defines {f g : Forest} (sized : f.Sized) (step : f.Defines g) : g.Sized := by
  obtain ⟨i, s, s', here, ⟨name, kept, value, source, defined⟩, rfl⟩ := step
  obtain ⟨_, _, rfl⟩ := Scope.eq_store_of_define (sized_of_scope? sized here) defined
  intro p hp
  obtain ⟨j, hj⟩ := Array.getElem?_of_mem hp
  rw [getElem?_setTable] at hj
  by_cases same : i = j
  · subst same
    rw [if_pos rfl] at hj
    obtain ⟨old, hold, rfl⟩ := Option.map_eq_some_iff.mp hj
    have size := sized_of_scope? sized here
    rwa [Table.Sized, Scope.store, Table.symbolSize_put]
  · rw [if_neg same] at hj
    exact sized p (Array.mem_of_getElem? hj)

end Forest

/-- A later state of the same scope: names are cut as before, and no value is lost or changed. -/
structure Scope.Continues (s later : Scope) : Prop where
  symbolSize : later.inner.symbolSize = s.inner.symbolSize
  values : ∀ k v, s.lookup k = .ok v → later.lookup k = .ok v

namespace Scope

theorem Continues.trans {s t u : Scope} (first : s.Continues t) (second : t.Continues u) :
    s.Continues u :=
  ⟨second.symbolSize.trans first.symbolSize,
    fun k v found => second.values k v (first.values k v found)⟩

theorem continues_store {s : Scope} {name : Text} (fresh : ∀ v, s.lookup name ≠ .ok v) (value : Int)
    (source : Option Excerpt) : s.Continues (s.store name value source) :=
  ⟨Table.symbolSize_put _ _, fun _ _ found => lookup_store_of_lookup fresh value source found⟩

/-- As a scope takes definitions, it loses no value that it has. -/
theorem continues_of_grows {s s' : Scope} (sized : s.inner.Sized) (grows : s.Grows s') :
    s.Continues s' := by
  induction grows with
  | refl => exact ⟨rfl, fun _ _ found => found⟩
  | tail _ step ih =>
    obtain ⟨name, kept, value, source, defined⟩ := step
    rename_i now _ _
    have sizedNow : now.inner.Sized := by rwa [Table.Sized, ih.symbolSize]
    obtain ⟨fresh, _, rfl⟩ := eq_store_of_define sizedNow defined
    exact ih.trans (continues_store fresh value source)

theorem sized_of_grows {s s' : Scope} (sized : s.inner.Sized) (grows : s.Grows s') :
    s'.inner.Sized := by
  rwa [Table.Sized, (continues_of_grows sized grows).symbolSize]

end Scope

namespace Forest

/-- Values further out are kept if the parent's scope is. -/
theorem lookupIn_surroundings {f g : Forest} {j : Nat} (same : g.parentOf j = f.parentOf j)
    (parents : ∀ q < j, ∀ s, f.scope? q = some s →
      ∃ later, g.scope? q = some later ∧ s.Continues later) {k : Text} {v : Int}
    (h : Scope.lookupIn (f.surroundings j).2 (f.surroundings j).1 k = .ok v) :
    Scope.lookupIn (g.surroundings j).2 (g.surroundings j).1 k = .ok v := by
  cases parent : f.parentOf j with
  | nothing =>
    rw [surroundings, parent] at h
    cases h
  | given b =>
    rw [surroundings, parent] at h
    rwa [surroundings, same, parent]
  | table q =>
    by_cases earlier : q < j
    · rw [surroundings_eq parent earlier] at h
      rw [surroundings_eq (same.trans parent) earlier]
      cases outer : f.scope? q with
      | none =>
        rw [outer] at h
        cases h
      | some s =>
        rw [outer] at h
        obtain ⟨later, known, continues⟩ := parents q earlier s outer
        rw [known]
        exact continues.values k v h
    · rw [surroundings, parent] at h
      simp only [if_neg earlier] at h
      cases h

/-- A name that had no value gets one in some table. No value is lost by that in any other. -/
theorem scope?_setTable_store {f : Forest} {i : Nat} {t : Scope} (here : f.scope? i = some t)
    {name : Text} (fresh : ∀ v, t.lookup name ≠ .ok v) (value : Int) (source : Option Excerpt)
    {j : Nat} {s : Scope} (h : f.scope? j = some s) :
    ∃ later, (f.setTable i (t.store name value source).inner).scope? j = some later ∧
      s.Continues later := by
  -- The parent of a table comes before it, so it is settled first.
  induction j using Nat.strongRecOn generalizing s with
  | ind j ih =>
    by_cases same : i = j
    · subst same
      obtain rfl : t = s := Option.some.inj (here.symm.trans h)
      exact ⟨_, scope?_setTable f _ h, Scope.continues_store fresh value source⟩
    · obtain ⟨p, hp, rfl⟩ := Option.map_eq_some_iff.mp h
      have unmoved : (f.setTable i (t.store name value source).inner)[j]? = some p := by
        rw [getElem?_setTable, if_neg same, hp]
      refine ⟨_, Option.map_eq_some_iff.mpr ⟨p, unmoved, rfl⟩, rfl, ?_⟩
      intro k v found
      rw [Scope.lookup_eq] at found ⊢
      cases own : p.table.find? (p.table.clip k) with
      | some symbol =>
        simp only [own] at found ⊢
        exact found
      | none =>
        simp only [own] at found ⊢
        apply lookupIn_surroundings (parentOf_setTable f _ j) _ found
        exact fun q earlier _ => ih q earlier

/-- A definition in one table takes no value from any other. -/
theorem scope?_of_defines {f g : Forest} (sized : f.Sized) (step : f.Defines g) {j : Nat}
    {s : Scope} (h : f.scope? j = some s) :
    ∃ later, g.scope? j = some later ∧ s.Continues later := by
  obtain ⟨i, t, t', here, ⟨name, kept, value, source, defined⟩, rfl⟩ := step
  obtain ⟨fresh, _, rfl⟩ := Scope.eq_store_of_define (sized_of_scope? sized here) defined
  exact scope?_setTable_store here fresh value source h

theorem sized_of_grows {f g : Forest} (sized : f.Sized) (grows : f.Grows g) : g.Sized := by
  induction grows with
  | refl => exact sized
  | tail _ step ih => exact sized_of_defines ih step

/-- However many definitions the tables take, every value that was found is still found. -/
theorem scope?_of_grows {f g : Forest} (sized : f.Sized) (grows : f.Grows g) {j : Nat} {s : Scope}
    (h : f.scope? j = some s) : ∃ later, g.scope? j = some later ∧ s.Continues later := by
  induction grows with
  | refl => exact ⟨s, h, rfl, fun _ _ found => found⟩
  | tail before step ih =>
    obtain ⟨now, here, continues⟩ := ih
    obtain ⟨later, known, next⟩ := scope?_of_defines (sized_of_grows sized before) step here
    exact ⟨later, known, continues.trans next⟩

end Forest

end AsmOperand
