/-
Quoted scalars. Between single quotes a quote is written twice; between double quotes a backslash starts an escape.
Neither may hold a line that starts with a mark between documents.
-/
import CallLint.Text.Digits
import CallLint.Yaml.Scalar.Basic

namespace CallLint.Yaml.Scalar

/-- escapes that stand for one character -/
def namedEscape? : Char → Option Char
  | '0' => some '\x00'
  | 'a' => some '\x07'
  | 'b' => some '\x08'
  | 't' => some '\t'
  | '\t' => some '\t'
  | 'n' => some '\n'
  | 'v' => some '\x0b'
  | 'f' => some '\x0c'
  | 'r' => some '\r'
  | 'e' => some '\x1b'
  | ' ' => some ' '
  | '"' => some '"'
  | '/' => some '/'
  | '\\' => some '\\'
  | 'N' => some '\u0085'
  | '_' => some '\u00A0'
  | 'L' => some '\u2028'
  | 'P' => some '\u2029'
  | _ => none

/-- number of digits in an escape that gives a character by its code -/
def codeLength? : Char → Option Nat
  | 'x' => some 2
  | 'u' => some 4
  | 'U' => some 8
  | _ => none

/-- the character of a code of `n` digits -/
def coded? (n : Nat) (digits : List Char) : Option Char := do
  let code ← Text.digitsValue? 16 (digits.take n)
  if digits.length < n then none
  else if h : code.isValidChar then some (Char.ofNatAux code h)
  else none

/-- the character of an escape and the number of characters after the backslash that make it -/
def escape? : List Char → Option (Char × Nat)
  | [] => none
  | c :: rest =>
    match namedEscape? c with
    | some x => some (x, 1)
    | none => (codeLength? c).bind fun n => (coded? n rest).map fun x => (x, n + 1)

/-- a run of blanks and line ends inside a quoted scalar, folded onto what was read -/
def quotedGap? (escaped : Bool) (acc : List Char) (c : Cursor) : Option (List Char × Cursor) :=
  let (run, next) := c.take isSpacing
  if next.atMarker then none else some ((fold escaped run).reverse ++ acc, next)

/-- reads on after the opening single quote; `acc` holds what was read, backwards -/
def singleQuotedFrom : Nat → List Char → Cursor → Option (String × Cursor)
  | 0, _, _ => none
  | fuel + 1, acc, c =>
    match c.rest with
    | [] => none
    | '\'' :: '\'' :: _ => singleQuotedFrom fuel ('\'' :: acc) (c.advance 2)
    | '\'' :: _ => some (String.ofList acc.reverse, c.advance 1)
    | x :: _ =>
      if isSpacing x then do
        let (acc, c) ← quotedGap? false acc c
        singleQuotedFrom fuel acc c
      else singleQuotedFrom fuel (x :: acc) (c.advance 1)

/-- reads on after the opening double quote; `acc` holds what was read, backwards -/
def doubleQuotedFrom : Nat → List Char → Cursor → Option (String × Cursor)
  | 0, _, _ => none
  | fuel + 1, acc, c =>
    match c.rest with
    | [] => none
    | '"' :: _ => some (String.ofList acc.reverse, c.advance 1)
    | '\\' :: after =>
      if after.head?.any isBreak then do
        let (acc, c) ← quotedGap? true acc (c.advance 2)
        doubleQuotedFrom fuel acc c
      else do
        let (x, n) ← escape? after
        doubleQuotedFrom fuel (x :: acc) (c.advance (n + 1))
    | x :: _ =>
      if isSpacing x then do
        let (acc, c) ← quotedGap? false acc c
        doubleQuotedFrom fuel acc c
      else doubleQuotedFrom fuel (x :: acc) (c.advance 1)

/-- the quoted scalar that starts at a quote -/
def quoted? (single : Bool) (c : Cursor) : Option (Scalar × Cursor) :=
  if single then (singleQuotedFrom (c.rest.length + 1) [] (c.advance 1)).map fun (s, c) => (⟨s, .singleQuoted⟩, c)
  else (doubleQuotedFrom (c.rest.length + 1) [] (c.advance 1)).map fun (s, c) => (⟨s, .doubleQuoted⟩, c)

end CallLint.Yaml.Scalar
