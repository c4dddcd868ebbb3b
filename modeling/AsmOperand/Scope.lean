import AsmOperand.Bindings
import AsmOperand.Problem

/-!
# Scopes

A scope is a chain of symbol tables, the innermost first, and under the last of them a map of
names that are given. Each table has a symbol size of its own: a name is cut to it on the way in,
so the outer tables see what the inner ones left of it. The map at the bottom takes names as they
come.

Definitions go to the innermost table and are refused for a name that already has a value anywhere
in the chain. Looking up, testing and listing are three separate walks over the chain; that they
agree is not part of this module. They do not always: a name of an outer table may be longer than
an inner one keeps.
-/

namespace AsmOperand

/-- A defined symbol, and where it was defined if that is known. -/
structure Symbol where
  name : Text
  value : Int
  source : Option Excerpt
  deriving DecidableEq, Repr

/-- One table of the chain, its symbols in order of definition. -/
structure Table where
  symbolSize : Int
  symbols : List Symbol := []
  deriving DecidableEq, Repr

namespace Table

/-- What the table keeps of a name. -/
def clip (t : Table) (name : Text) : Text := name.cut t.symbolSize

/-- The symbol of exactly this name. -/
def find? (t : Table) (name : Text) : Option Symbol :=
  t.symbols.find? fun s => s.name = name

def names (t : Table) : List Text := t.symbols.map (·.name)

/-- The source of the symbol of exactly this name. -/
def sourceOf (t : Table) (name : Text) : Option Excerpt := (t.find? name).bind (·.source)

/-- Puts a symbol in the place of the one of its name, or else behind all others. -/
def put (t : Table) (s : Symbol) : Table :=
  if (t.find? s.name).isSome then
    { t with symbols := t.symbols.map fun old => if old.name = s.name then s else old }
  else { t with symbols := t.symbols ++ [s] }

/-- The table's own symbols with their values. -/
def text (t : Table) : String :=
  let entries := t.symbols.map fun s => s!"{String.ofList s.name}={s.value}"
  "SymbolTable(" ++ ", ".intercalate entries ++ ")"

/-- A name that is not in the table is added at the end. -/
theorem symbols_put_of_find?_eq_none {t : Table} {s : Symbol} (h : t.find? s.name = none) :
    (t.put s).symbols = t.symbols ++ [s] := by
  simp [put, h]

theorem find?_put_of_find?_eq_none {t : Table} {s : Symbol} (h : t.find? s.name = none)
    (name : Text) :
    (t.put s).find? name = (t.find? name).or (if s.name = name then some s else none) := by
  rw [find?, symbols_put_of_find?_eq_none h, List.find?_append]
  by_cases hn : s.name = name <;> simp [find?, hn]

end Table

structure Scope where
  inner : Table
  outer : List Table := []
  given : Bindings := []
  deriving DecidableEq, Repr

namespace Scope

/-- The value of a name, or else what was left of the name at the bottom of the chain. -/
def lookupIn (given : Bindings) : List Table → Text → Except Text Int
  | [], name =>
    match given.find? name with
    | some v => .ok v
    | none => .error name
  | t :: outer, name =>
    match t.find? (t.clip name) with
    | some s => .ok s.value
    | none => lookupIn given outer (t.clip name)

def lookup (s : Scope) (name : Text) : Except Text Int := lookupIn s.given (s.inner :: s.outer) name

def lookup? (s : Scope) (name : Text) : Option Int := (s.lookup name).toOption

def containsIn (given : Bindings) : List Table → Text → Bool
  | [], name => (given.find? name).isSome
  | t :: outer, name =>
    (t.find? (t.clip name)).isSome || containsIn given outer (t.clip name)

/-- Has the name a value? -/
def contains (s : Scope) (name : Text) : Bool := containsIn s.given (s.inner :: s.outer) name

def namesIn (given : Bindings) : List Table → List Text
  | [] => given.names
  | t :: outer => t.names ++ (namesIn given outer).filter fun name => name ∉ t.names

/-- All names: each table's own in order of definition, then those of the tables outside it. -/
def names (s : Scope) : List Text := namesIn s.given (s.inner :: s.outer)

def size (s : Scope) : Nat := s.names.length

/-- All names with their values, or the name at which looking one up failed. -/
def entries (s : Scope) : Except Text (List (Text × Int)) :=
  s.names.mapM fun name => do return (name, ← s.lookup name)

/-- Defines a symbol in the innermost table. The result holds the name it is kept under. A refusal
shows both definitions, as far as their sources are known. The name that is tested is the one to be
kept, cut once more as any name that is looked up; a size below zero then tests another name, and
the symbol may take the place of an older one. -/
def define (s : Scope) (name : Text) (value : Int) (source : Option Excerpt) :
    Except Report (Text × Scope) :=
  let kept := s.inner.clip name
  if s.contains kept then
    .error ⟨.redefined kept, [source, s.inner.sourceOf kept].filterMap id⟩
  else .ok (kept, { s with inner := s.inner.put ⟨kept, value, source⟩ })

/-- A definition changes the innermost table only. -/
theorem outer_of_define {s s' : Scope} {name kept : Text} {value : Int} {source : Option Excerpt}
    (h : s.define name value source = .ok (kept, s')) :
    s'.outer = s.outer ∧ s'.given = s.given := by
  simp only [define] at h
  split at h
  · cases h
  · cases h
    exact ⟨rfl, rfl⟩

end Scope

end AsmOperand
