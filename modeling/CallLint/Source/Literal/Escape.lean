/-
Escapes in character and string literals. A backslash with a letter, a quote or a backslash is one character, with a
line feed none, with one to three octal digits or with `u` and four hexadecimal digits the character of that number.
-/
import CallLint.Source.Literal.Integer

namespace CallLint

/-- the character of a one-letter escape -/
def letterEscape? : Char → Option Char
  | 'b' => some '\x08'
  | 't' => some '\t'
  | 'n' => some '\n'
  | 'f' => some '\x0c'
  | 'r' => some '\r'
  | 's' => some ' '
  | '"' => some '"'
  | '\'' => some '\''
  | '\\' => some '\\'
  | _ => none

/-- the character of a number; none for surrogates and numbers that are too large -/
def charOfNat? (n : Nat) : Option Char :=
  if h : n.isValidChar then some (Char.ofNatAux n h) else none

/-- an octal escape's value and what follows it; at most `more` further digits are taken -/
def takeOctal : Nat → Nat → List Char → Nat × List Char
  | more + 1, value, c :: cs =>
    match Text.digitValue? 8 c with
    | some d => takeOctal more (value * 8 + d) cs
    | none => (value, c :: cs)
  | _, value, cs => (value, cs)

/-- the four hexadecimal digits after `u` as a character, and what follows them; a plus sign may stand for the first -/
def takeUnicode? (cs : List Char) : Option (Char × List Char) :=
  let digits :=
    match cs.take 4 with
    | '+' :: rest => rest
    | digits => digits
  (Text.digitsValue? 16 digits).bind fun n => (charOfNat? n).map fun c => (c, cs.drop 4)

/-- what an escape stands for, and what follows it; the backslash is taken already -/
def takeEscape? : List Char → Option (List Char × List Char)
  | [] => none
  | c :: cs =>
    match letterEscape? c with
    | some e => some ([e], cs)
    | none =>
      if c = '\n' then some ([], cs)
      else if c = 'u' then (takeUnicode? (cs.dropWhile (· == 'u'))).map fun (e, rest) => ([e], rest)
      else
        match Text.digitValue? 8 c with
        | some d =>
          let (n, rest) := takeOctal (if d ≤ 3 then 2 else 1) d cs
          (charOfNat? n).map fun e => ([e], rest)
        | none => none

/-- decodes escapes, `fuel` characters and escapes at most -/
def unescapeFrom : Nat → List Char → Option (List Char)
  | _, [] => some []
  | 0, _ :: _ => none
  | fuel + 1, c :: cs =>
    if c = '\\' then
      match takeEscape? cs with
      | some (decoded, rest) => (unescapeFrom fuel rest).map (decoded ++ ·)
      | none => none
    else (unescapeFrom fuel cs).map (c :: ·)

/-- the characters that a text with escapes stands for; none when an escape is malformed -/
def unescape (cs : List Char) : Option (List Char) :=
  unescapeFrom cs.length cs

end CallLint
