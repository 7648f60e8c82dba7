/-
Values of string literals, text blocks and character literals. A text block loses the indentation that its lines share
and the blanks at their ends. The shared indentation is counted in bytes; when that many bytes of a line end inside a
character the block has no value and no error either, and lowering stops with a fault.
-/
import CallLint.Source.Literal.Escape
import CallLint.Text.Blank
import CallLint.Text.Split

namespace CallLint

/-- why lowering cannot go on -/
inductive Fault where
  /-- the shared indentation of a text block ends inside a character -/
  | splitIndent
deriving DecidableEq, Repr

def Fault.message : Fault → String
  | .splitIndent => "the indentation of a text block ends inside a character"

namespace TextBlock

/-- the lines of a block's content; what stands before the first line feed is none of it -/
def lines (block : List Char) : List (List Char) :=
  let content := if block.contains '\n' then (block.dropWhile (· != '\n')).drop 1 else block
  Text.splitAt '\n' content

/-- bytes of leading blanks -/
def indentOf (line : List Char) : Nat :=
  Text.byteLength (line.takeWhile Text.isBlank)

/-- the lines that count for the shared indentation: those that are not blank, and the last one -/
def countedLines : List (List Char) → List (List Char)
  | [] => []
  | [line] => [line]
  | line :: rest => if Text.isBlankText line then countedLines rest else line :: countedLines rest

/-- bytes of blanks that all counted lines start with -/
def sharedIndent (lines : List (List Char)) : Nat :=
  ((countedLines lines).map indentOf).min?.getD 0

/-- a line without its first `n` bytes -/
def dropBytes : Nat → List Char → Except Fault (List Char)
  | 0, cs => .ok cs
  | _ + 1, [] => .ok []
  | n + 1, c :: cs => if c.utf8Size ≤ n + 1 then dropBytes (n + 1 - c.utf8Size) cs else .error .splitIndent
termination_by _ cs => cs.length

/-- a line without the shared indentation and without blanks at its end -/
def stripLine (indent : Nat) (line : List Char) : Except Fault (List Char) :=
  (dropBytes (min indent (indentOf line)) line).map Text.trimEnd

/-- the content of a block with escapes still in it -/
def strip (block : List Char) : Except Fault (List Char) :=
  let ls := lines block
  (ls.mapM (stripLine (sharedIndent ls))).map (Text.joinWith '\n')

end TextBlock

/-- what stands between a literal's delimiters -/
def between? (delimiter cs : List Char) : Option (List Char) :=
  (Text.dropLeading delimiter cs).bind (Text.dropTrailing delimiter)

namespace Literal

/-- characters of a string literal or text block; none when an escape is malformed -/
def stringChars? (cs : List Char) : Except Fault (Option (List Char)) :=
  match Text.dropLeading ['"', '"', '"'] cs with
  | some rest =>
    match Text.dropTrailing ['"', '"', '"'] rest with
    | some block => (TextBlock.strip block).map unescape
    | none => .ok none
  | none => .ok ((between? ['"'] cs).bind unescape)

/-- value of a string literal or text block -/
def ofStringText? (text : String) : Except Fault (Option Literal) :=
  (stringChars? text.toList).map (·.map fun cs => .str (String.ofList cs))

/-- value of a character literal; none unless it stands for one character -/
def ofCharacterText? (text : String) : Option Literal :=
  match (between? ['\''] text.toList).bind unescape with
  | some [c] => some (.char c)
  | _ => none

end Literal

end CallLint
