/-
From text to tokens. Blanks separate, comments go to the token that follows them, and everything else must be a lexeme.
In a string the scan stops at each embedded expression, whose tokens follow up to the brace that ends it; `Mode`
remembers what to go back to.
-/
import CallLint.Source.Lexeme
import CallLint.Source.Basic

namespace CallLint

open Text (Glyph)

/-- an embedded expression that is open: in which kind of string, and how many of its braces are open -/
structure Mode where
  /-- a text block, closed by three quotes -/
  block : Bool
  depth : Nat
deriving DecidableEq, Repr

/-- what is left of the text, and the offset at which it starts -/
structure Cursor where
  rest : List Glyph
  offset : Nat

/-- the cursor after `n` characters -/
def Cursor.advance (c : Cursor) (n : Nat) : Cursor :=
  ⟨c.rest.drop n, (c.rest.take n).foldl (fun o g => o + g.width) c.offset⟩

/-- how the scan of a string's content ends -/
inductive StringEnd where
  | closed (after : Cursor) (quoteStart : Nat)
  | splice (after : Cursor) (spliceStart : Nat)

/-- scans the content of a string up to its end or its next embedded expression -/
def scanString (block : Bool) : Nat → Cursor → Option StringEnd
  | 0, _ => none
  | fuel + 1, c =>
    match c.rest with
    | [] => none
    | g :: gs =>
      if g.char == '"' then
        if !block then some (.closed (c.advance 1) c.offset)
        else if Lexeme.startsWith ['"', '"'] gs then some (.closed (c.advance 3) c.offset)
        else scanString block fuel (c.advance 1)
      else if g.char == '\\' then
        match Lexeme.escape block gs with
        | .invalid => none
        | .splice => some (.splice (c.advance 2) c.offset)
        | .plain n => scanString block fuel (c.advance n)
      else if g.char == '\x00' then none
      else scanString block fuel (c.advance 1)

/-- the tokens so far, newest first, and the comments since the last of them -/
structure LexState where
  tokens : List Token
  comments : List Comment

def LexState.push (s : LexState) (kind : TokenKind) (start stop : Nat) : LexState :=
  ⟨⟨kind, start, stop, s.comments.reverse⟩ :: s.tokens, []⟩

/-- the content of a string whose opening was read, up to where ordinary tokens go on -/
def lexString (block : Bool) (c : Cursor) (modes : List Mode) (s : LexState) :
    Option (Cursor × List Mode × LexState) :=
  match scanString block (c.rest.length + 1) c with
  | none => none
  | some (.closed after quoteStart) => some (after, modes, s.push .quoteClose quoteStart after.offset)
  | some (.splice after spliceStart) =>
    some (after, ⟨block, 0⟩ :: modes, s.push .spliceOpen spliceStart after.offset)

/-- the modes after a brace that is a token of its own -/
def Mode.afterMark (m : String) : List Mode → List Mode
  | [] => []
  | mode :: modes =>
    if m == "\x7b" then { mode with depth := mode.depth + 1 } :: modes
    else if m == "\x7d" then { mode with depth := mode.depth - 1 } :: modes
    else mode :: modes

/-- one lexeme or one blank from the front -/
def lexStep (c : Cursor) (g : Glyph) (gs : List Glyph) (modes : List Mode) (s : LexState) :
    Option (Cursor × List Mode × LexState) :=
  let token (kind : TokenKind) (n : Nat) (modes : List Mode) : Option (Cursor × List Mode × LexState) :=
    let after := c.advance n
    some (after, modes, s.push kind c.offset after.offset)
  let comment (n : Nat) (isLine : Bool) : Option (Cursor × List Mode × LexState) :=
    let after := c.advance n
    some (after, modes, { s with comments := ⟨c.offset, after.offset, isLine⟩ :: s.comments })
  if Text.isBlank g.char then some (c.advance 1, modes, s)
  else if Lexeme.startsWith ['/', '/'] c.rest then comment (Lexeme.lineComment c.rest) true
  else if Lexeme.blockComment c.rest != 0 then comment (Lexeme.blockComment c.rest) false
  else if Lexeme.word c.rest != 0 then
    let n := Lexeme.word c.rest
    token (.word (String.ofList ((c.rest.take n).map (·.char)))) n modes
  else if Lexeme.character c.rest != 0 then token .character (Lexeme.character c.rest) modes
  else if g.char == '"' then
    let block := Lexeme.startsWith ['"', '"'] gs
    let after := c.advance (if block then 3 else 1)
    lexString block after modes (s.push .quoteOpen c.offset after.offset)
  else
    match Lexeme.number c.rest with
    | some (kind, n) => token kind n modes
    | none =>
      match modes with
      | ⟨block, 0⟩ :: outer =>
        if g.char == '}' then
          let after := c.advance 1
          lexString block after outer (s.push .spliceClose c.offset after.offset)
        else (Lexeme.mark c.rest).bind fun m => token (.mark m) m.length (Mode.afterMark m modes)
      | _ => (Lexeme.mark c.rest).bind fun m => token (.mark m) m.length (Mode.afterMark m modes)

/-- all tokens from a cursor on -/
def lexFrom : Nat → Cursor → List Mode → LexState → Option Tokens
  | 0, _, _, _ => none
  | fuel + 1, c, modes, s =>
    match c.rest with
    | [] => if modes.isEmpty then some ⟨s.tokens.reverse, s.comments.reverse⟩ else none
    | g :: gs =>
      match lexStep c g gs modes s with
      | none => none
      | some (c, modes, s) => lexFrom fuel c modes s

/-- where the text starts; a byte order mark is skipped and counted -/
def Cursor.start (gs : List Glyph) : Cursor :=
  match gs with
  | g :: rest => if g.char == '\uFEFF' then ⟨rest, g.width⟩ else ⟨gs, 0⟩
  | [] => ⟨[], 0⟩

/-- the tokens of a text; none when some of it is no lexeme -/
def Source.tokens? (source : Source) : Option Tokens :=
  let c := Cursor.start source.glyphs
  lexFrom (c.rest.length + 1) c [] ⟨[], []⟩

end CallLint
