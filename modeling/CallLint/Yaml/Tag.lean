/-
Tags and directives. A tag names the type of a node: whole between angle brackets, or as a shorthand, whose handle a
directive or a default expands.
-/
import CallLint.Yaml.Scalar.Quoted

namespace CallLint.Yaml

structure Tag where
  /-- empty when the tag is written whole -/
  handle : String
  suffix : String
deriving DecidableEq, Repr, Inhabited

namespace Tag

/-- handles that need no directive, and what they stand for -/
def standardHandles : List (String × String) :=
  [("!", "!"), ("!!", "tag:yaml.org,2002:")]

/-- the whole tag, when its handle is known; the first meaning of a handle counts -/
def expand? (handles : List (String × String)) (t : Tag) : Option String :=
  if t.handle.isEmpty then some t.suffix else (handles.lookup t.handle).map (· ++ t.suffix)

/-- a handle: an exclamation mark, or a name between two; without the second one it is only the start of a tag -/
def handle? (inDirective : Bool) (c : Cursor) : Option (List Char × Cursor) :=
  if !c.startsWith (· == '!') then none
  else
    let (name, c) := (c.advance 1).take isNameChar
    if c.startsWith (· == '!') then some ('!' :: name ++ ['!'], c.advance 1)
    else if inDirective && !name.isEmpty then none
    else some ('!' :: name, c)

/-- a character of tags; `whole` also admits brackets and commas -/
def isUriChar (whole : Bool) (c : Char) : Bool :=
  isNameChar c || ";/?:@&=+$.%!~*'()".toList.contains c || (whole && [',', '[', ']'].contains c)

/-- the byte that a percent sign and two digits stand for -/
def percentByte? : List Char → Option Nat
  | '%' :: a :: b :: _ => Text.digitsValue? 16 [a, b]
  | _ => none

/-- number of bytes of a character by its first byte -/
def encodedWidth? (lead : Nat) : Option Nat :=
  if lead < 0x80 then some 1
  else if lead < 0xC0 then none
  else if lead < 0xE0 then some 2
  else if lead < 0xF0 then some 3
  else if lead < 0xF8 then some 4
  else none

/-- a character written as percent signs and digits for its bytes, and the number of these bytes -/
def percentChar? (cs : List Char) : Option (Char × Nat) := do
  let lead ← percentByte? cs
  let width ← encodedWidth? lead
  let others ← (List.range (width - 1)).mapM fun i => percentByte? (cs.drop (3 * (i + 1)))
  if others.all fun b => decide (0x80 ≤ b ∧ b < 0xC0) then
    let bits := if width = 1 then lead else lead % Nat.pow 2 (7 - width)
    return (Char.ofNat (others.foldl (fun n b => n * 0x40 + b % 0x40) bits), width)
  else none

/-- reads the characters of a tag; `acc` holds those before, backwards -/
def uriFrom (whole : Bool) : Nat → List Char → Cursor → Option (List Char × Cursor)
  | 0, _, _ => none
  | fuel + 1, acc, c =>
    match c.rest with
    | [] => some (acc.reverse, c)
    | x :: _ =>
      if x == '%' then do
        let (x, width) ← percentChar? c.rest
        uriFrom whole fuel (x :: acc) (c.advance (3 * width))
      else if isUriChar whole x then uriFrom whole fuel (x :: acc) (c.advance 1)
      else some (acc.reverse, c)

def uri? (whole : Bool) (c : Cursor) : Option (List Char × Cursor) :=
  uriFrom whole (c.rest.length + 1) [] c

/-- a tag with characters, at least one -/
def someUri? (whole : Bool) (c : Cursor) : Option (List Char × Cursor) :=
  (uri? whole c).filter fun (cs, _) => !cs.isEmpty

/-- the tag that starts at an exclamation mark; it must end a word, or stand before a comma in brackets -/
def read? (inFlow : Bool) (c : Cursor) : Option (Tag × Cursor) := do
  let (tag, c) ←
    match c.rest with
    | '!' :: '<' :: _ => do
      let (cs, c) ← someUri? true (c.advance 2)
      if c.startsWith (· == '>') then some ((⟨"", String.ofList cs⟩ : Tag), c.advance 1) else none
    | _ => do
      let (handle, c) ← handle? false c
      if 2 ≤ handle.length && handle.getLast? == some '!' then
        let (cs, c) ← someUri? false c
        some (⟨String.ofList handle, String.ofList cs⟩, c)
      else
        let (cs, c) ← uri? false c
        let suffix := String.ofList (handle.drop 1 ++ cs)
        some (if suffix.isEmpty then ⟨"", "!"⟩ else ⟨"!", suffix⟩, c)
  if c.endsWordAt 0 || (inFlow && c.startsWith (· == ',')) then some (tag, c) else none

end Tag

inductive Directive where
  | version (major minor : Nat)
  /-- what a handle stands for in the tags of the document -/
  | shorthand (handle expansion : String)
deriving DecidableEq, Repr, Inhabited

namespace Directive

/-- a number of at most nine digits -/
def number? (c : Cursor) : Option (Nat × Cursor) :=
  let (digits, after) := c.take (·.isDigit)
  if 9 < digits.length then none else (Text.digitsValue? 10 digits).map fun n => (n, after)

def version? (c : Cursor) : Option (Directive × Cursor) := do
  let (major, c) ← number? (c.skip isBlank)
  if c.startsWith (· == '.') then
    let (minor, c) ← number? (c.advance 1)
    return (.version major minor, c)
  else none

def shorthand? (c : Cursor) : Option (Directive × Cursor) := do
  let (handle, c) ← Tag.handle? true (c.skip isBlank)
  if c.startsWith isBlank then
    let (expansion, c) ← Tag.someUri? true (c.skip isBlank)
    if c.endsWordAt 0 then return (.shorthand (String.ofList handle) (String.ofList expansion), c) else none
  else none

/-- the directive that starts at a percent sign, and the cursor after its line -/
def read? (c : Cursor) : Option (Directive × Cursor) := do
  let (name, c) := (c.advance 1).take isNameChar
  if !c.endsWordAt 0 then none
  else
    let (directive, c) ←
      if String.ofList name == "YAML" then version? c else if String.ofList name == "TAG" then shorthand? c else none
    return (directive, ← c.finishLine?)

end Directive

end CallLint.Yaml
