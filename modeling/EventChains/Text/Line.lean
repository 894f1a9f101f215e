/-!
# Lines of a text

A line ends at a line feed, or at a carriage return directly before one; the end of the text ends
the last line. A carriage return anywhere else belongs to its line, also at the very end of the
text, and a text that ends in a line feed has no further empty line.
-/

namespace EventChains.Text

/-- A line that ended at a line feed, without the carriage return before it. -/
def dropReturn (line : List Char) : List Char :=
  if line.getLast? = some '\r' then line.dropLast else line

/-- The lines of a text, without their ends. -/
def lines (text : List Char) : List (List Char) :=
  if text.isEmpty then []
  else
    let line := text.takeWhile (· ≠ '\n')
    match _h : text.dropWhile (· ≠ '\n') with
    | [] => [line]
    | _ :: rest => dropReturn line :: lines rest
termination_by text.length
decreasing_by
  have := (List.dropWhile_sublist (· ≠ '\n') (l := text)).length_le
  simp only [ne_eq, decide_not] at _h this
  simp only [_h, List.length_cons] at this
  omega

end EventChains.Text
