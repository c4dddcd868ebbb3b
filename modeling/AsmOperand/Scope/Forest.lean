import AsmOperand.Scope

/-!
# Tables that share parents

Several tables may continue in the same outer one, and a definition there is seen from all of
them. A forest numbers its tables; each names its parent, an earlier table or a map of given
names. A table's scope is put together by walking to the root, so it is always up to date.
-/

namespace AsmOperand

/-- Where a table continues. -/
inductive Parent where
  | nothing
  | given (b : Bindings)
  | table (index : Nat)
  deriving DecidableEq, Repr

structure Planted where
  table : Table
  parent : Parent
  deriving DecidableEq, Repr

abbrev Forest := Array Planted

namespace Forest

/-- Where the table at `index` continues. -/
def parentOf (f : Forest) (index : Nat) : Parent :=
  match f[index]? with
  | some p => p.parent
  | none => .nothing

/-- The tables outside the one at `index`, and the names given under them. -/
def surroundings (f : Forest) (index : Nat) : List Table × Bindings :=
  match f.parentOf index with
  | .nothing => ([], [])
  | .given b => ([], b)
  | .table parent =>
    if parent < index then
      match f[parent]? with
      | none => ([], [])
      | some p =>
        let (outer, given) := surroundings f parent
        (p.table :: outer, given)
    else ([], [])
termination_by index

/-- The scope of the table at `index`. -/
def scope? (f : Forest) (index : Nat) : Option Scope :=
  f[index]?.map fun p =>
    let (outer, given) := f.surroundings index
    ⟨p.table, outer, given⟩

/-- Puts a changed table back. -/
def setTable (f : Forest) (index : Nat) (t : Table) : Forest :=
  f.modify index fun p => { p with table := t }

end Forest

end AsmOperand
