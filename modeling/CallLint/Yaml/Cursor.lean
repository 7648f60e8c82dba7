/-
Places in a YAML text. Before anything is read, every line end but the two separators of Unicode is written as a line
feed; since a line end always stands for one in a value, nothing is lost.
-/
namespace CallLint.Yaml

/-- whether a character may stand in a text at all -/
def isAllowed (c : Char) : Bool :=
  c == '\t' || c == '\n' || c == '\r' || (0x20 ≤ c.toNat && c.toNat ≤ 0x7E) || c.toNat == 0x85 ||
    (0xA0 ≤ c.toNat && c.toNat ≤ 0xD7FF) || (0xE000 ≤ c.toNat && c.toNat ≤ 0xFFFD) || 0x10000 ≤ c.toNat

def isBreak (c : Char) : Bool :=
  c == '\n' || c.toNat == 0x2028 || c.toNat == 0x2029

def isBlank (c : Char) : Bool :=
  c == ' ' || c == '\t'

def isSpacing (c : Char) : Bool :=
  isBlank c || isBreak c

/-- a character of names -/
def isNameChar (c : Char) : Bool :=
  c.isAlphanum || c == '_' || c == '-'

/-- a text with its line ends written as line feeds -/
def unifyBreaks : List Char → List Char
  | [] => []
  | '\r' :: '\n' :: rest => '\n' :: unifyBreaks rest
  | c :: rest => (if c == '\r' || c.toNat == 0x85 then '\n' else c) :: unifyBreaks rest

/-- what is left of a text, with the number of line ends before it and of characters before it on its line -/
structure Cursor where
  rest : List Char
  line : Nat
  column : Nat
deriving Repr, Inhabited

namespace Cursor

/-- the start of a text; a byte order mark is skipped and takes a column -/
def start : List Char → Cursor
  | '\uFEFF' :: rest => ⟨rest, 0, 1⟩
  | rest => ⟨rest, 0, 0⟩

/-- the start of a text whose characters are all allowed -/
def ofText? (text : String) : Option Cursor :=
  if text.toList.all isAllowed then some (start (unifyBreaks text.toList)) else none

/-- the cursor after `n` characters -/
def advance (c : Cursor) : Nat → Cursor
  | 0 => c
  | n + 1 =>
    match c.rest with
    | [] => c
    | x :: rest => (if isBreak x then ⟨rest, c.line + 1, 0⟩ else ⟨rest, c.line, c.column + 1⟩ : Cursor).advance n

/-- the characters at the front that pass a test, and the cursor after them -/
def take (c : Cursor) (p : Char → Bool) : List Char × Cursor :=
  let run := c.rest.takeWhile p
  (run, c.advance run.length)

def skip (c : Cursor) (p : Char → Bool) : Cursor :=
  (c.take p).2

def startsWith (c : Cursor) (p : Char → Bool) : Bool :=
  c.rest.head?.any p

/-- whether the text `n` characters further on is at its end or starts with a blank or a line end -/
def endsWordAt (c : Cursor) (n : Nat) : Bool :=
  (c.rest.drop n).head?.all isSpacing

/-- whether a line starts here with one of the marks between documents -/
def atMarker (c : Cursor) : Bool :=
  c.column == 0 && (['-', '-', '-'].isPrefixOf c.rest || ['.', '.', '.'].isPrefixOf c.rest) && c.endsWordAt 3

/-- the cursor after blanks, a comment and the line end; none when anything else stands before the line end -/
def finishLine? (c : Cursor) : Option Cursor :=
  let c := c.skip isBlank
  let c := if c.startsWith (· == '#') then c.skip (!isBreak ·) else c
  match c.rest with
  | [] => some c
  | x :: _ => if isBreak x then some (c.advance 1) else none

end Cursor

end CallLint.Yaml
