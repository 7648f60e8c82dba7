/-
Quoted text: how a string stands in a message so that every character of it can be seen. Double quotes surround it;
quotes, backslashes and controls are escaped, and so are characters that are not shown or that are drawn onto the
character before them.
-/
import CallLint.Text.Class.Printable
import CallLint.Text.Class.Extender

namespace CallLint.Text

/-- hexadecimal digits of a number, in lower case -/
def hexText (n : Nat) : List Char :=
  Nat.toDigits 16 n

/-- how one character stands between quotes; `quoteMarks` are the quotes that get a backslash -/
def escapeChar (quoteMarks : List Char) (c : Char) : List Char :=
  if c = '\x00' then ['\\', '0']
  else if c = '\t' then ['\\', 't']
  else if c = '\r' then ['\\', 'r']
  else if c = '\n' then ['\\', 'n']
  else if c = '\\' || quoteMarks.contains c then ['\\', c]
  else if isExtender c || !isPrintable c then ['\\', 'u', '{'] ++ hexText c.toNat ++ ['}']
  else [c]

/-- a string between double quotes -/
def quoted (s : String) : String :=
  String.ofList (['"'] ++ s.toList.flatMap (escapeChar ['"']) ++ ['"'])

/-- a file path between double quotes; single quotes are escaped as well -/
def quotedPath (s : String) : String :=
  String.ofList (['"'] ++ s.toList.flatMap (escapeChar ['"', '\'']) ++ ['"'])

end CallLint.Text
