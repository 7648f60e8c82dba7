/-
Lines of a text. Every line feed ends a line, and a carriage return before it belongs to the line's end. What follows
the last line feed is a line only when it is not empty.
-/
import CallLint.Text.Split

namespace CallLint.Text

/-- a line without the carriage return before its line feed -/
def dropReturn (line : List Char) : List Char :=
  (dropTrailing ['\r'] line).getD line

/-- the parts between line feeds as lines; the last part has no line feed after it -/
def linesOfParts : List (List Char) → List (List Char)
  | [] => []
  | [last] => if last.isEmpty then [] else [last]
  | line :: next :: rest => dropReturn line :: linesOfParts (next :: rest)

def lines (cs : List Char) : List (List Char) :=
  linesOfParts (splitAt '\n' cs)

end CallLint.Text
