/-
Plain scalars. They end before a colon that ends a word, before a comment after a blank, before a mark between documents
and, outside brackets, before a line that is not indented deeper than the collection they stand in.
-/
import CallLint.Yaml.Scalar.Basic

namespace CallLint.Yaml.Scalar

/-- whether a tab stands left of a column on a later line of a run that starts at `column` -/
def tabBefore (indent : Nat) : Bool → Nat → List Char → Bool
  | _, _, [] => false
  | later, column, x :: rest =>
    if isBreak x then tabBefore indent true 0 rest
    else (later && x == '\t' && decide (column < indent)) || tabBefore indent later (column + 1) rest

/-- brackets, braces and the comma inside them -/
def isFlowMark (c : Char) : Bool :=
  c == ',' || c == '[' || c == ']' || c == '\x7b' || c == '\x7d'

/-- a colon that may neither end a key nor stand in a plain scalar -/
def isStrayColon (inFlow : Bool) : List Char → Bool
  | ':' :: x :: _ => inFlow && (isFlowMark x || x == '?')
  | _ => false

/-- whether a plain scalar ends before a character that stands in a word -/
def endsPlain (inFlow : Bool) : List Char → Bool
  | [] => true
  | ':' :: rest => rest.head?.all isSpacing
  | x :: _ => inFlow && isFlowMark x

/-- reads on from a cursor; `acc` holds what was read, backwards, and `gap` the blanks and line ends since. The result
also says whether the scalar was followed by a line end. -/
def plainFrom (inFlow : Bool) (indent : Nat) : Nat → List Char → List Char → Cursor → Option (String × Bool × Cursor)
  | 0, _, _, _ => none
  | fuel + 1, gap, acc, c =>
    let finish := some (String.ofList acc.reverse, gap.any isBreak, c)
    match c.rest with
    | [] => finish
    | x :: rest =>
      if isSpacing x then
        let (run, next) := c.take isSpacing
        if tabBefore indent false c.column run then none
        else if !inFlow && decide (next.column < indent) then some (String.ofList acc.reverse, run.any isBreak, next)
        else plainFrom inFlow indent fuel run acc next
      else if c.atMarker || (x == '#' && !gap.isEmpty) then finish
      else if isStrayColon inFlow (x :: rest) then none
      else if endsPlain inFlow (x :: rest) then finish
      else plainFrom inFlow indent fuel [] (x :: ((fold false gap).reverse ++ acc)) (c.advance 1)

/-- the plain scalar at a cursor -/
def plain? (inFlow : Bool) (indent : Nat) (c : Cursor) : Option (Scalar × Bool × Cursor) :=
  (plainFrom inFlow indent (2 * c.rest.length + 1) [] [] c).map fun (s, broke, c) => (⟨s, .plain⟩, broke, c)

/-- other characters that mean something else at the start of a scalar -/
def leadingMarks : List Char :=
  ['#', '&', '*', '!', '|', '>', '\'', '"', '%', '@', '\x60']

/-- whether a plain scalar starts with a character, given what follows it -/
def startsPlain (inFlow : Bool) : List Char → Bool
  | [] => false
  | x :: rest =>
    if x == '-' then !rest.head?.any isBlank
    else if x == '?' || x == ':' then !inFlow && !rest.head?.all isSpacing
    else !isSpacing x && !isFlowMark x && !leadingMarks.contains x

end CallLint.Yaml.Scalar
