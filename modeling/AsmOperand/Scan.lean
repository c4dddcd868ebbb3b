import AsmOperand.Excerpt
import AsmOperand.Settings

/-!
# The shape of an operand

Scanning an operand from left to right finds its groups, strings and words without knowing any
value. The result, a `Scan`, holds them in reading order; what stands in parentheses is a `Scan`
of its own. Scanning depends on three settings only: the delimiter, the length limit and the
closing rule for groups.

A group, a string or a word that is longer than the limit counts up to the limit. Its full excerpt
is kept beside the part that counts, for the diagnostic.

Each step leaves fewer characters, inside a group too; nothing is said here about how deep groups
nest.
-/

namespace AsmOperand

/-- What is left to evaluate, in reading order. -/
inductive Scan where
  /-- The end of the text. -/
  | done
  /-- A group that nothing closes; the excerpt runs from its parenthesis to the end. -/
  | unclosed (opened : Excerpt)
  | group (overlong : Option Excerpt) (body rest : Scan)
  /-- A string; `unended` is there if the line ends before the string does. -/
  | quoted (unended overlong : Option Excerpt) (chars : Text) (rest : Scan)
  | word (overlong : Option Excerpt) (token : Excerpt) (rest : Scan)
  deriving Repr

namespace Scan

/-- An excerpt cut to the length limit, and the whole of it if something was cut off. -/
structure Clipped where
  kept : Excerpt
  overlong : Option Excerpt

def clip (limit : Nat) (e : Excerpt) : Clipped :=
  if e.length ≤ limit then ⟨e, none⟩ else ⟨e.sub 0 limit, some e⟩

/-- How many characters stand before the parenthesis that closes a group, `depth` groups inside it
being open. Without nesting, inner parentheses do not open anything. -/
def groupLength? (nested : Bool) : Nat → Text → Option Nat
  | _, [] => none
  | depth, c :: rest =>
    if c = ')' then
      match depth with
      | 0 => some 0
      | depth + 1 => (groupLength? nested depth rest).map (· + 1)
    else if c = '(' ∧ nested = true then (groupLength? nested (depth + 1) rest).map (· + 1)
    else (groupLength? nested depth rest).map (· + 1)

theorem lt_length_of_groupLength? {nested : Bool} {depth n : Nat} {t : Text}
    (h : groupLength? nested depth t = some n) : n < t.length := by
  fun_induction groupLength? nested depth t generalizing n with
  | case1 => cases h
  | case2 => cases h; simp
  | case3 => grind [Option.map_eq_some_iff]
  | case4 => grind [Option.map_eq_some_iff]
  | case5 => grind [Option.map_eq_some_iff]

/-- The characters of a string: up to the delimiter or the end of the line. -/
def stringChars (delimiter : Char) (t : Text) : Text :=
  t.takeWhile fun c => c ≠ delimiter ∧ c ≠ '\n'

/-- Can the character stand inside a word? -/
def isWordChar (c : Char) : Bool := !Text.isBlank c && !isOperator c

/-- How many more characters belong to a word that starts with `c`. An operator stands alone. -/
def wordLength (c : Char) (rest : Text) : Nat :=
  if isOperator c then 0 else (rest.takeWhile isWordChar).length

theorem length_kept_le (limit : Nat) (e : Excerpt) (a b : Nat) :
    (clip limit (e.sub a b)).kept.text.length ≤ b - a := by
  simp only [clip]
  split
  · exact Excerpt.length_text_sub_le e a b
  · rename_i h
    have := Excerpt.length_text_sub_le (e.sub a b) 0 limit
    rw [Excerpt.length_sub] at h
    simp only
    omega

/-- The scan of the characters from column `i` of `e` on. -/
def ofChars (s : Settings) (e : Excerpt) (i : Nat) : Text → Scan
  | [] => .done
  | c :: rest =>
    if Text.isBlank c then ofChars s e (i + 1) rest
    else if c = '(' then
      match h : groupLength? s.nested 0 rest with
      | none => .unclosed (e.tail i)
      | some n =>
        let body := clip s.maxLength (e.sub (i + 1) (i + 1 + n))
        .group body.overlong (ofChars s body.kept 0 body.kept.text)
          (ofChars s e (i + n + 2) (rest.drop (n + 1)))
    else if c = s.delimiter then
      let n := (stringChars s.delimiter rest).length
      let body := clip s.maxLength (e.sub (i + 1) (i + 1 + n))
      if rest[n]? = some s.delimiter then
        .quoted none body.overlong body.kept.text (ofChars s e (i + n + 2) (rest.drop (n + 1)))
      else
        .quoted (some (e.sub i (i + 1 + n))) body.overlong body.kept.text
          (ofChars s e (i + n + 1) (rest.drop n))
    else
      let n := wordLength c rest
      let token := clip s.maxLength (e.sub i (i + 1 + n))
      .word token.overlong token.kept (ofChars s e (i + n + 1) (rest.drop n))
termination_by t => t.length
decreasing_by
  all_goals simp only [List.length_cons, List.length_drop]
  · omega
  · have := lt_length_of_groupLength? h
    have := length_kept_le s.maxLength e (i + 1) (i + 1 + n)
    omega
  all_goals omega

end Scan

/-- The scan of an excerpt's text. -/
def Excerpt.scan (s : Settings) (e : Excerpt) : Scan := Scan.ofChars s e 0 e.text

end AsmOperand
