/-
Recognisers for the lexemes of Java: each gives the number of characters it takes from the front, 0 when it takes none.
Of two recognisers that fit, the one that takes more wins.
-/
import CallLint.Source.Token
import CallLint.Text.Blank
import CallLint.Text.Utf8
import CallLint.Text.Class.IdentifierStart
import CallLint.Text.Class.IdentifierPart

namespace CallLint.Lexeme

open Text (Glyph)

/-- whether the next character is in a class -/
def nextIs (p : Char → Bool) : List Glyph → Bool
  | [] => false
  | g :: _ => p g.char

/-- length of the longest run of a class at the front -/
def run (p : Char → Bool) : List Glyph → Nat
  | [] => 0
  | g :: gs => if p g.char then run p gs + 1 else 0

/-- the characters of `word`, when they stand at the front -/
def startsWith : List Char → List Glyph → Bool
  | [], _ => true
  | _ :: _, [] => false
  | c :: cs, g :: gs => g.char == c && startsWith cs gs

def isDigit (c : Char) : Bool :=
  '0' ≤ c && c ≤ '9'

def isHexDigit (c : Char) : Bool :=
  isDigit c || ('a' ≤ c && c ≤ 'f') || ('A' ≤ c && c ≤ 'F')

def isOctalDigit (c : Char) : Bool :=
  '0' ≤ c && c ≤ '7'

def isBinaryDigit (c : Char) : Bool :=
  c == '0' || c == '1'

/-! ## Words -/

def isWordStart (c : Char) : Bool :=
  c == '_' || c == '$' || Text.isIdentifierStart c

def isWordPart (c : Char) : Bool :=
  c == '_' || c == '$' || c == '\u00A2' || Text.isIdentifierPart c

def word (gs : List Glyph) : Nat :=
  if nextIs isWordStart gs then run isWordPart gs else 0

/-! ## Numbers -/

/-- digits where single underscores may stand between two of them; the first character is a digit -/
def digitsFrom (p : Char → Bool) : List Glyph → Nat
  | [] => 0
  | g :: gs =>
    if p g.char || (g.char == '_' && nextIs p gs) then digitsFrom p gs + 1 else 0

/-- digits with single underscores between them -/
def digits (p : Char → Bool) (gs : List Glyph) : Nat :=
  if nextIs p gs then digitsFrom p gs else 0

/-- digits where any underscores may stand between two of them -/
def looseDigits : List Glyph → Nat
  | [] => 0
  | g :: gs =>
    if isDigit g.char || (g.char == '_' && nextIs isDigit (gs.drop (run (· == '_') gs))) then looseDigits gs + 1
    else 0

/-- one character of a class, when it is next -/
def one (p : Char → Bool) (gs : List Glyph) : Nat :=
  if nextIs p gs then 1 else 0

def longSuffix (gs : List Glyph) : Nat :=
  one (fun c => c == 'l' || c == 'L') gs

def floatSuffix (gs : List Glyph) : Nat :=
  one (fun c => c == 'f' || c == 'F' || c == 'd' || c == 'D') gs

/-- `n` characters and the optional ones that `more` takes after them -/
def followedBy (gs : List Glyph) (n : Nat) (more : List Glyph → Nat) : Nat :=
  n + more (gs.drop n)

/-- `0`, or digits that start with no 0; right after the first one underscore may stand, later any number -/
def decimalInteger (gs : List Glyph) : Nat :=
  match gs with
  | [] => 0
  | g :: rest =>
    if g.char == '0' then followedBy gs 1 longSuffix
    else if isDigit g.char then
      let more :=
        if nextIs isDigit rest then looseDigits rest
        else if nextIs (· == '_') rest && nextIs isDigit (rest.drop 1) then looseDigits rest
        else 0
      followedBy gs (1 + more) longSuffix
    else 0

/-- `0`, one of two letters, digits -/
def radixInteger (letters : List Char) (p : Char → Bool) : List Glyph → Nat
  | a :: b :: rest =>
    let n := digits p rest
    if a.char == '0' && letters.contains b.char && n != 0 then followedBy (a :: b :: rest) (n + 2) longSuffix else 0
  | _ => 0

def hexInteger (gs : List Glyph) : Nat :=
  radixInteger ['x', 'X'] isHexDigit gs

def binaryInteger (gs : List Glyph) : Nat :=
  radixInteger ['b', 'B'] isBinaryDigit gs

/-- `0` and octal digits, with or without the letter o between them -/
def octalInteger (gs : List Glyph) : Nat :=
  match gs with
  | a :: rest =>
    let n := digits isOctalDigit rest
    let plain := if a.char == '0' && n != 0 then followedBy gs (n + 1) longSuffix else 0
    max plain (radixInteger ['o', 'O'] isOctalDigit gs)
  | [] => 0

/-- an exponent: one of two letters, a sign or none, digits -/
def exponent (letters : List Char) (gs : List Glyph) : Nat :=
  if nextIs letters.contains gs then
    let sign := one (fun c => c == '+' || c == '-') (gs.drop 1)
    let n := digits isDigit (gs.drop (1 + sign))
    if n == 0 then 0 else 1 + sign + n
  else 0

/-- optional exponent and suffix after `n` characters -/
def floatTail (gs : List Glyph) (n : Nat) : Nat :=
  followedBy gs (followedBy gs n (exponent ['e', 'E'])) floatSuffix

/-- digits with a point in or before them, or with an exponent or a suffix -/
def decimalFloat (gs : List Glyph) : Nat :=
  let whole := digits isDigit gs
  if nextIs (· == '.') (gs.drop whole) then
    let fraction := digits isDigit (gs.drop (whole + 1))
    if whole + fraction == 0 then 0 else floatTail gs (whole + 1 + fraction)
  else if whole == 0 then 0
  else
    let n := floatTail gs whole
    if n == whole then 0 else n

/-- `0x`, hexadecimal digits that may hold a point, an optional exponent of two -/
def hexFloat : List Glyph → Nat
  | a :: b :: rest =>
    if a.char == '0' && (b.char == 'x' || b.char == 'X') then
      let whole := digits isHexDigit rest
      let point := one (· == '.') (rest.drop whole)
      let fraction := if point == 0 then 0 else digits isHexDigit (rest.drop (whole + 1))
      if whole + fraction == 0 then 0
      else
        let gs := a :: b :: rest
        let n := 2 + whole + point + fraction
        let e := exponent ['p', 'P'] (gs.drop n)
        if e == 0 then n else followedBy gs (n + e) floatSuffix
    else 0
  | _ => 0

/-- the longest number at the front; of equally long ones the first in this order -/
def number (gs : List Glyph) : Option (TokenKind × Nat) :=
  let candidates : List (TokenKind × Nat) :=
    [(.decimalInteger, decimalInteger gs), (.hexInteger, hexInteger gs), (.octalInteger, octalInteger gs),
      (.binaryInteger, binaryInteger gs), (.decimalFloat, decimalFloat gs), (.hexFloat, hexFloat gs)]
  candidates.foldl (fun best c => if c.2 > (best.map (·.2)).getD 0 then some c else best) none

/-! ## Characters, comments and marks -/

/-- the content of a character literal and its closing quote; `some` content must come first -/
def characterTail (some : Bool) : List Glyph → Option Nat
  | [] => none
  | g :: gs =>
    if g.char == '\'' then if some then Option.some 1 else none
    else if g.char == '\\' then
      match gs with
      | [] => none
      | _ :: gs => (characterTail true gs).map (· + 2)
    else if g.char == '\n' || g.char == '\x00' then none
    else (characterTail true gs).map (· + 1)

/-- a character literal: a quote, one or more characters or escapes, a quote -/
def character : List Glyph → Nat
  | g :: gs => if g.char == '\'' then ((characterTail false gs).map (· + 1)).getD 0 else 0
  | [] => 0

/-- two slashes and the rest of the line -/
def lineComment (gs : List Glyph) : Nat :=
  if startsWith ['/', '/'] gs then run (fun c => c != '\n' && c != '\x00') gs else 0

/-- characters up to and with the first star and slash -/
def blockCommentTail : List Glyph → Option Nat
  | [] => none
  | g :: gs =>
    if g.char == '*' && nextIs (· == '/') gs then some 2 else (blockCommentTail gs).map (· + 1)

def blockComment (gs : List Glyph) : Nat :=
  if startsWith ['/', '*'] gs then ((blockCommentTail (gs.drop 2)).map (· + 2)).getD 0 else 0

/-- operators and separators, longer ones first -/
def marks : List String :=
  ["@interface", "<<=", "...", "->", "::", "++", "--", "==", "!=", "<=", "&&", "||", "+=", "-=", "*=", "/=", "&=", "|=",
    "^=", "%=", "<<", "(", ")", "\x7b", "\x7d", "[", "]", ";", ",", ".", "@", ":", "=", "<", ">", "+", "-", "*", "/",
    "%", "&", "|", "^", "!", "~", "?"]

def mark (gs : List Glyph) : Option String :=
  marks.find? fun m => startsWith m.toList gs

/-- what is known of the characters after a backslash in a string -/
inductive Escape where
  /-- an escape of so many characters, the backslash included -/
  | plain (length : Nat)
  /-- the start of an embedded expression -/
  | splice
  | invalid
deriving DecidableEq, Repr

/-- the escape whose backslash stands before `gs`; text blocks take any character -/
def escape (block : Bool) : List Glyph → Escape
  | [] => .invalid
  | g :: gs =>
    if g.char == '{' then .splice
    else if block then .plain 2
    else if isOctalDigit g.char then .plain (1 + min 3 (run isOctalDigit (g :: gs)))
    else if g.char == 'x' then if run isHexDigit (gs.take 2) == 2 then .plain 4 else .invalid
    else if g.char == 'u' then
      if run isHexDigit (gs.take 4) == 4 then .plain 6
      else if nextIs (· == '{') gs then
        let n := run isHexDigit (gs.drop 1)
        if n != 0 && nextIs (· == '}') (gs.drop (n + 1)) then .plain (n + 4) else .invalid
      else .invalid
    else .plain 2

end CallLint.Lexeme
