import AsmOperand.Text

/-!
# Lines

A newline ends a line; what stands behind the last newline is a line too unless it is empty. Text
from a file has its line ends made uniform first: a carriage return, alone or before a newline,
ends a line as well.

A text may also be the beginning of something that could not be read to its end. Of such a text
only the lines count that are known to be complete. A carriage return at its end is not: a newline
might have followed.
-/

namespace AsmOperand.Text

def lines : Text → List Text
  | [] => []
  | c :: rest =>
    if c = '\n' then [] :: lines rest
    else
      match lines rest with
      | [] => [[c]]
      | line :: more => (c :: line) :: more

theorem newline_notMem_of_mem_lines {t line : Text} (h : line ∈ t.lines) : '\n' ∉ line := by
  induction t generalizing line with
  | nil => simp [lines] at h
  | cons c rest ih =>
    unfold lines at h
    split at h
    · rcases List.mem_cons.1 h with rfl | h
      · simp
      · exact ih h
    · rename_i hc
      split at h
      · cases List.mem_singleton.1 h
        simp [Ne.symm hc]
      · rename_i first more hrest
        rcases List.mem_cons.1 h with rfl | h
        · have := ih (hrest ▸ List.mem_cons_self)
          simp [Ne.symm hc, this]
        · exact ih (hrest ▸ List.mem_cons_of_mem _ h)

/-- Makes every line end a newline. -/
def uniformEnds : Text → Text
  | [] => []
  | '\r' :: '\n' :: rest => '\n' :: uniformEnds rest
  | c :: rest => (if c = '\r' then '\n' else c) :: uniformEnds rest

/-- The lines that are complete in the beginning of a text. -/
def completeLines (t : Text) : List Text :=
  let known := if t.getLast? = some '\r' then t.dropLast else t
  let ended := (uniformEnds known).reverse.dropWhile (· ≠ '\n')
  lines ended.reverse

example : lines "a\n\nb".toList = ["a".toList, [], "b".toList] := by decide

example : uniformEnds "a\r\nb\rc".toList = "a\nb\nc".toList := by decide

example : completeLines "a\nb".toList = ["a".toList] := by decide

end AsmOperand.Text
