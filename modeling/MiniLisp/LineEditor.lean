import MiniLisp.LineEditor.Backspace
import MiniLisp.Repl

/-!
# The line editor

What stands between the standard input and the loop when lines do not come from a terminal.  The
line editor belongs to the surroundings of the program: the loop takes it as it is, whatever it
prints and whichever lines it hands over.  Editing at a terminal, the history of lines, interrupts
and faults of the input are left out.

## Main statement

* `lines_of_not_mem`: without backspaces the loop sees the lines as they were typed.
-/

namespace MiniLisp
namespace LineEditor

/-- A prompt is printed as it is, also before the line that is not there at the end. -/
def ask (prompt : String) : List Output :=
  [.out prompt]

/-- The lines of a text as they are typed, without their ends; an end is a line feed or a carriage
return and a line feed. -/
def typedLines (text : List Char) : List (List Char) :=
  let parts := text.splitOn '\n'
  let ended := parts.dropLast.map fun line =>
    if line.getLast? = some '\r' then line.dropLast else line
  match parts.getLast? with
  | none | some [] => ended
  | some last => ended ++ [last]

/-- The lines of a text as the loop sees them, with the backspaces in each followed. -/
def lines (text : List Char) : List (List Char) :=
  (typedLines text).map applyBackspaces

theorem lines_of_not_mem {text : List Char} (h : ∀ line ∈ typedLines text, backspace ∉ line) :
    lines text = typedLines text := by
  unfold lines
  rw [List.map_congr_left fun line hline => applyBackspaces_of_not_mem line (h line hline)]
  exact List.map_id _

end LineEditor
end MiniLisp
