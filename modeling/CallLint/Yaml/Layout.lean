/-
From text to tokens. Outside brackets the columns at which lines start open and close collections. Anything that could
turn out to be a key is remembered until its line ends: a colon on that line puts the key's token before it, and, where
no mapping is open at its column, the token that opens one.
-/
import CallLint.Yaml.Scalar.Block
import CallLint.Yaml.Scalar.Plain
import CallLint.Yaml.Token

namespace CallLint.Yaml

/-- a place where a key may have started -/
structure PossibleKey where
  /-- number of tokens before it -/
  index : Nat
  line : Nat
  column : Nat
  /-- whether only a key may stand there -/
  isRequired : Bool
deriving Repr, Inhabited

structure Layout where
  cursor : Cursor
  tokens : Array Token
  /-- columns of the open block collections, innermost first -/
  columns : List Nat
  /-- the possible key inside each open bracket, innermost first, and outside of all -/
  keys : List (Option PossibleKey)
  /-- whether a key may start here -/
  keyAllowed : Bool

namespace Layout

def start (c : Cursor) : Layout :=
  ⟨c, #[], [], [none], true⟩

def inFlow (s : Layout) : Bool :=
  1 < s.keys.length

def push (s : Layout) (t : Token) (after : Cursor) : Layout :=
  { s with tokens := s.tokens.push t, cursor := after }

/-- opens a block collection at a column, by a token at an index, unless one is open there or further right -/
def openBlock (s : Layout) (t : Token) (column index : Nat) : Layout :=
  if s.inFlow || s.columns.head?.any (fun open_ => decide (column ≤ open_)) then s
  else { s with columns := column :: s.columns, tokens := s.tokens.insertIdxIfInBounds index t }

/-- closes the block collections that pass a test on their column -/
def closeBlocks (s : Layout) (p : Nat → Bool) : Layout :=
  if s.inFlow then s
  else
    let closed := s.columns.takeWhile p
    { s with columns := s.columns.drop closed.length, tokens := closed.foldl (fun ts _ => ts.push .blockEnd) s.tokens }

def closeAll (s : Layout) : Layout :=
  s.closeBlocks fun _ => true

/-- forgets the innermost possible key, which must not be required -/
def dropKey (s : Layout) : Option Layout :=
  match s.keys with
  | [] => none
  | key :: outer => if key.any (·.isRequired) then none else some { s with keys := none :: outer }

/-- remembers that a key may start here -/
def saveKey (s : Layout) : Option Layout :=
  if s.keyAllowed then do
    let isRequired := !s.inFlow && s.columns.head? == some s.cursor.column
    let s ← s.dropKey
    return { s with keys := some ⟨s.tokens.size, s.cursor.line, s.cursor.column, isRequired⟩ :: s.keys.drop 1 }
  else some s

/-- a possible key, unless its line is over or it is longer than 1024 characters; a required one must not end so -/
def keepKey (c : Cursor) (key : Option PossibleKey) : Option (Option PossibleKey) :=
  match key with
  | none => some none
  | some k =>
    if k.line < c.line || k.column + 1024 < c.column then (if k.isRequired then none else some none) else some (some k)

def dropStaleKeys (s : Layout) : Option Layout := do
  return { s with keys := ← s.keys.mapM (keepKey s.cursor) }

/-- passes blanks, comments and line ends; tabs count as blanks only where no key may start -/
def skipSpacing : Nat → Layout → Layout
  | 0, s => s
  | fuel + 1, s =>
    let c := s.cursor.skip fun x => x == ' ' || (x == '\t' && (s.inFlow || !s.keyAllowed))
    let c := if c.startsWith (· == '#') then c.skip (!isBreak ·) else c
    if c.startsWith isBreak then
      skipSpacing fuel { s with cursor := c.advance 1, keyAllowed := s.keyAllowed || !s.inFlow }
    else { s with cursor := c }

/-! ## Single tokens -/

/-- a token after which everything open is closed and no key may start -/
def betweenDocuments (s : Layout) (t : Token) (after : Cursor) : Option Layout := do
  let s ← s.closeAll.dropKey
  return { s.push t after with keyAllowed := false }

def openFlow (s : Layout) (t : Token) : Option Layout := do
  let s ← s.saveKey
  return { s.push t (s.cursor.advance 1) with keys := none :: s.keys, keyAllowed := true }

def closeFlow (s : Layout) (t : Token) : Option Layout := do
  let s ← s.dropKey
  return { s.push t (s.cursor.advance 1) with keys := if s.inFlow then s.keys.drop 1 else s.keys, keyAllowed := false }

def separator (s : Layout) : Option Layout := do
  let s ← s.dropKey
  return { s.push .separator (s.cursor.advance 1) with keyAllowed := true }

def item (s : Layout) : Option Layout :=
  if !s.inFlow && !s.keyAllowed then none
  else do
    let s ← (s.openBlock .blockSequence s.cursor.column s.tokens.size).dropKey
    return { s.push .item (s.cursor.advance 1) with keyAllowed := true }

/-- a question mark, after which a key of any kind stands -/
def explicitKey (s : Layout) : Option Layout :=
  if !s.inFlow && !s.keyAllowed then none
  else do
    let s ← (s.openBlock .blockMapping s.cursor.column s.tokens.size).dropKey
    return { s.push .key (s.cursor.advance 1) with keyAllowed := !s.inFlow }

/-- a colon, which belongs to the possible key before it, or else to a key after a question mark -/
def value (s : Layout) : Option Layout :=
  match s.keys with
  | some k :: outer =>
    let s := { s with tokens := s.tokens.insertIdxIfInBounds k.index .key, keys := none :: outer, keyAllowed := false }
    let s := s.openBlock .blockMapping k.column k.index
    some (s.push .value (s.cursor.advance 1))
  | _ =>
    if !s.inFlow && !s.keyAllowed then none
    else
      let s := s.openBlock .blockMapping s.cursor.column s.tokens.size
      some { s.push .value (s.cursor.advance 1) with keyAllowed := !s.inFlow }

/-- an anchor or an alias: its name must end a word or stand before a mark -/
def named (s : Layout) (token : String → Token) : Option Layout := do
  let s ← s.saveKey
  let (name, after) := (s.cursor.advance 1).take isNameChar
  if !name.isEmpty && (after.endsWordAt 0 || after.startsWith "?:,]\x7d%@\x60".toList.contains) then
    return { s.push (token (String.ofList name)) after with keyAllowed := false }
  else none

def tag (s : Layout) : Option Layout := do
  let s ← s.saveKey
  let (t, after) ← Tag.read? s.inFlow s.cursor
  return { s.push (.tag t) after with keyAllowed := false }

def blockScalar (s : Layout) (isFolded : Bool) : Option Layout := do
  let s ← s.dropKey
  let (scalar, after) ← Scalar.block? isFolded s.columns.head? s.cursor
  return { s.push (.scalar scalar) after with keyAllowed := true }

def quotedScalar (s : Layout) (single : Bool) : Option Layout := do
  let s ← s.saveKey
  let (scalar, after) ← Scalar.quoted? single s.cursor
  return { s.push (.scalar scalar) after with keyAllowed := false }

/-- a plain scalar; after one that a line end follows, a key may start -/
def plainScalar (s : Layout) : Option Layout := do
  let s ← s.saveKey
  let indent := (s.columns.head?.map (· + 1)).getD 0
  let (scalar, broke, after) ← Scalar.plain? s.inFlow indent s.cursor
  return { s.push (.scalar scalar) after with keyAllowed := broke }

/-- the token at the cursor -/
def next (s : Layout) : Option Layout :=
  match s.cursor.rest with
  | [] => none
  | x :: rest =>
    let endsWord := rest.head?.all isSpacing
    if x == '%' && s.cursor.column == 0 then
      (Directive.read? s.cursor).bind fun (d, after) => s.betweenDocuments (.directive d) after
    else if s.cursor.atMarker then
      s.betweenDocuments (if x == '-' then .documentStart else .documentEnd) (s.cursor.advance 3)
    else if x == '[' then s.openFlow .flowSequence
    else if x == '\x7b' then s.openFlow .flowMapping
    else if x == ']' then s.closeFlow .flowSequenceEnd
    else if x == '\x7d' then s.closeFlow .flowMappingEnd
    else if x == ',' then s.separator
    else if x == '-' && endsWord then s.item
    else if x == '?' && (s.inFlow || endsWord) then s.explicitKey
    else if x == ':' && (s.inFlow || endsWord) then s.value
    else if x == '*' then s.named .alias
    else if x == '&' then s.named .anchor
    else if x == '!' then s.tag
    else if (x == '|' || x == '>') && !s.inFlow then s.blockScalar (x == '>')
    else if x == '\'' || x == '"' then s.quotedScalar (x == '\'')
    else if Scalar.startsPlain s.inFlow (x :: rest) then s.plainScalar
    else none

/-- all tokens from here on -/
def readFrom : Nat → Layout → Option (List Token)
  | 0, _ => none
  | fuel + 1, s => do
    let s ← (skipSpacing (s.cursor.rest.length + 1) s).dropStaleKeys
    let s := s.closeBlocks fun column => decide (s.cursor.column < column)
    if s.cursor.rest.isEmpty then return (← s.closeAll.dropKey).tokens.toList
    else readFrom fuel (← s.next)

end Layout

/-- the tokens of a text, unless some of it is no token or stands where it must not -/
def tokens? (text : String) : Option (List Token) := do
  let c ← Cursor.ofText? text
  Layout.readFrom (c.rest.length + 1) (.start c)

end CallLint.Yaml
