import AsmOperand.Text

/-!
# Bindings

A finite map from names to values that remembers the order in which names were first bound.
Binding a name again replaces its value and leaves its place.
-/

namespace AsmOperand

abbrev Bindings := List (Text × Int)

namespace Bindings

def find? (b : Bindings) (name : Text) : Option Int :=
  (List.find? (fun entry => entry.1 = name) b).map (·.2)

/-- Binds one name. -/
def bind (name : Text) (v : Int) : Bindings → Bindings
  | [] => [(name, v)]
  | entry :: rest =>
    if entry.1 = name then (name, v) :: rest else entry :: bind name v rest

/-- Binds the names of a list from left to right. -/
def ofPairs (pairs : List (Text × Int)) : Bindings :=
  pairs.foldl (fun b entry => bind entry.1 entry.2 b) []

def names (b : Bindings) : List Text := b.map (·.1)

theorem find?_bind_self (name : Text) (v : Int) (b : Bindings) :
    (bind name v b).find? name = some v := by
  induction b with
  | nil => simp [bind, find?]
  | cons entry rest ih =>
    simp only [bind]
    split
    · simp [find?]
    · rename_i h
      simpa [find?, h] using ih

theorem find?_bind_of_ne {m n : Text} (v : Int) (b : Bindings) (h : m ≠ n) :
    (bind m v b).find? n = b.find? n := by
  induction b with
  | nil => simp [bind, find?, h]
  | cons entry rest ih =>
    simp only [bind]
    split
    · rename_i e
      simp [find?, h, e]
    · simp only [find?, List.find?_cons] at ih ⊢
      split
      · rfl
      · exact ih

end Bindings

end AsmOperand
