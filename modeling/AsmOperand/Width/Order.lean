import AsmOperand.Text
import AsmOperand.Width

/-!
# Order of widths

The unlimited width is larger than every number and equal only to itself. A width and a piece of
text are never equal, and have no order.
-/

namespace AsmOperand

/-- What can stand on either side of a comparison. -/
inductive Comparand where
  | width (w : Width)
  | text (t : Text)
  deriving DecidableEq, Repr

inductive Comparison where
  | lt
  | le
  | gt
  | ge
  | eq
  deriving DecidableEq, Repr

namespace Width

/-- The order that puts the unlimited width on top. -/
def le : Width → Width → Bool
  | _, .unlimited => true
  | .unlimited, .bits _ => false
  | .bits m, .bits n => m ≤ n

theorem le_refl (w : Width) : le w w = true := by
  cases w <;> simp [le]

theorem le_trans {u v w : Width} (h : le u v = true) (k : le v w = true) : le u w = true := by
  cases u <;> cases v <;> cases w <;> simp_all [le]
  omega

theorem le_total (u v : Width) : le u v = true ∨ le v u = true := by
  cases u <;> cases v <;> simp [le]
  omega

theorem le_antisymm {u v : Width} (h : le u v = true) (k : le v u = true) : u = v := by
  cases u <;> cases v <;> simp_all [le]
  omega

end Width

/-- The order of texts by code point, a beginning before what continues it. -/
def Text.le : Text → Text → Bool
  | [], _ => true
  | _ :: _, [] => false
  | a :: s, b :: t => if a = b then Text.le s t else a < b

namespace Comparison

/-- The outcome, given whether each side is at most the other. -/
def decideBy (c : Comparison) (below above : Bool) : Bool :=
  match c with
  | .lt => below && !above
  | .le => below
  | .gt => above && !below
  | .ge => above
  | .eq => below && above

/-- The outcome of a comparison, if the two sides can be compared so. -/
def outcome? (c : Comparison) : Comparand → Comparand → Option Bool
  | .width u, .width v => some (c.decideBy (u.le v) (v.le u))
  | .text s, .text t => some (c.decideBy (s.le t) (t.le s))
  | _, _ => if c = .eq then some false else none

end Comparison

end AsmOperand
