import AsmOperand.Excerpt

/-!
# Problems

What can be wrong with an operand, a definition or a file, told apart by cause. A cause carries
what its message mentions; the wording is decided here and nowhere else. Six kinds of problem have
a name of their own, under which a client may report one as well; other problems are described by
their message only.

Integers are written out with all their digits, here as in the log and on the lines that the command
prints. The length of a number is limited where one is typed (`Numeral.maxDigits`) and nowhere else,
so that no message fails for the size of what it mentions. What is proved of reports, definitions
and the command rests on this.
-/

namespace AsmOperand

namespace Problem

/-- The named kinds of problem. -/
inductive Kind where
  | missingParenthesis
  | missingQuote
  | undefinedSymbol
  | outOfRange
  | divisionByZero
  | tooLong
  deriving DecidableEq, Repr

def Kind.message : Kind → String
  | .missingParenthesis => "missing )"
  | .missingQuote => "missing string separator"
  | .undefinedSymbol => "undefined symbol"
  | .outOfRange => "value out of range"
  | .divisionByZero => "division by zero"
  | .tooLong => "token too long"

end Problem

inductive Problem where
  | missingParenthesis
  | missingQuote
  | undefinedSymbol (name : Text)
  | divisionByZero
  | negativeShift (count : Int)
  | shiftTooLarge (count : Int) (limit : Nat)
  | tooLong (length : Int) (limit : Nat)
  | outOfRange (value low high : Int)
  | missingValue (name : Text)
  | badName (name : Text)
  | redefined (name : Text)
  | unreadable (reason : String)
  | reported (kind : Problem.Kind) (detail : Option String)
  | described (message : String)
  deriving DecidableEq, Repr

namespace Problem

def kind? : Problem → Option Kind
  | .missingParenthesis => some .missingParenthesis
  | .missingQuote => some .missingQuote
  | .undefinedSymbol _ => some .undefinedSymbol
  | .divisionByZero => some .divisionByZero
  | .negativeShift _ => some .outOfRange
  | .shiftTooLarge _ _ => some .outOfRange
  | .tooLong _ _ => some .tooLong
  | .outOfRange _ _ _ => some .outOfRange
  | .reported kind _ => some kind
  | .missingValue _ => none
  | .badName _ => none
  | .redefined _ => none
  | .unreadable _ => none
  | .described _ => none

/-- What a message says besides the name of its kind. -/
def detail? : Problem → Option String
  | .missingParenthesis => none
  | .missingQuote => none
  | .undefinedSymbol name => some (String.ofList name)
  | .divisionByZero => none
  | .negativeShift count => some s!"negative shift count {count}"
  | .shiftTooLarge count limit => some s!"shift count {count} exceeds {limit}"
  | .tooLong length limit => some s!"{length} characters, maximum is {limit}"
  | .outOfRange value low high => some s!"{value} not in range {low}..{high}"
  | .missingValue name => some s!"missing value for symbol {name.quoted}"
  | .badName name => some s!"bad symbol name {name.quoted}"
  | .redefined name => some s!"multiply defined symbol {name.quoted}"
  | .unreadable reason => some s!"Error reading symbols: {reason}"
  | .reported _ detail => detail
  | .described message => some message

/-- The kind and the detail, with a colon between them if there are both. -/
def message (p : Problem) : String :=
  match p.kind?, p.detail? with
  | some kind, some detail => kind.message ++ ": " ++ detail
  | some kind, none => kind.message
  | none, some detail => detail
  | none, none => ""

/-- No problem is without a message of its own: one that has no kind has a detail. -/
theorem detail?_isSome_of_kind? {p : Problem} (h : p.kind? = none) : p.detail?.isSome = true := by
  cases p <;> simp_all [kind?, detail?]

end Problem

/-- A problem and the excerpts that show it, the one that caused it first. -/
structure Report where
  problem : Problem
  excerpts : List Excerpt
  deriving DecidableEq, Repr

end AsmOperand
