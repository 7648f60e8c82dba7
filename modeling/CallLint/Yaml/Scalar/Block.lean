/-
Block scalars. A header gives the style, what happens to the line ends after the last line, and possibly the
indentation; otherwise the first line that is not empty gives it. A folded scalar joins lines as other scalars do, but
not where one of them starts with a blank.
-/
import CallLint.Yaml.Scalar.Basic

namespace CallLint.Yaml.Scalar

/-- what happens to the line ends after the last line -/
inductive Chomping where
  /-- none is kept -/
  | strip
  /-- the one that ends the last line is kept -/
  | clip
  /-- all are kept -/
  | keep
deriving DecidableEq, Repr, Inhabited

def chomping? : Char → Option Chomping
  | '-' => some .strip
  | '+' => some .keep
  | _ => none

/-- an indentation of one to nine -/
def indentDigit? (c : Char) : Option Nat :=
  if '1' ≤ c && c ≤ '9' then some (c.toNat - '0'.toNat) else none

/-- chomping and indentation in either order, and the cursor after the header's line -/
def blockHeader? (c : Cursor) : Option (Chomping × Option Nat × Cursor) :=
  let (chomping, indent, n) : Option Chomping × Option Nat × Nat :=
    match c.rest with
    | [] => (none, none, 0)
    | x :: rest =>
      let y := rest.head?
      match chomping? x, indentDigit? x with
      | some k, _ =>
        match y.bind indentDigit? with
        | some d => (some k, some d, 2)
        | none => (some k, none, 1)
      | none, some d =>
        match y.bind chomping? with
        | some k => (some k, some d, 2)
        | none => (none, some d, 1)
      | none, none => (none, none, 0)
  (c.advance n).finishLine?.map fun after => (chomping.getD .clip, indent, after)

/-- line ends before the next line that is not empty, and the deepest indentation among these lines; the cursor is left
where that line's content starts. With an indentation given, blanks beyond it are content. -/
def emptyLines (indent : Option Nat) : Nat → Nat → List Char → Cursor → Option (List Char × Nat × Cursor)
  | 0, _, _, _ => none
  | fuel + 1, deepest, breaks, c =>
    let blanks := (c.rest.takeWhile (· == ' ')).length
    let c := c.advance (match indent with
      | some n => min blanks (n - c.column)
      | none => blanks)
    let deepest := max deepest c.column
    match c.rest with
    | [] => some (breaks.reverse, deepest, c)
    | x :: _ =>
      if x == '\t' && indent.all fun n => decide (c.column < n) then none
      else if isBreak x then emptyLines indent fuel deepest (x :: breaks) (c.advance 1)
      else some (breaks.reverse, deepest, c)

/-- the text so far, backwards, the line end of the last line, the line ends of the empty lines after it, and whether
that line started with a blank -/
structure BlockState where
  acc : List Char
  lastBreak : List Char
  empty : List Char
  blank : Bool

/-- the text before a line, which starts with a blank or not -/
def BlockState.join (s : BlockState) (isFolded blank : Bool) : List Char :=
  let between :=
    if isFolded && s.lastBreak == ['\n'] && !s.blank && !blank then (if s.empty.isEmpty then [' '] else s.empty)
    else s.lastBreak ++ s.empty
  between.reverse ++ s.acc

/-- the lines of a block scalar at an indentation -/
def blockLines (isFolded : Bool) (indent : Nat) : Nat → BlockState → Cursor → Option (BlockState × Cursor)
  | 0, _, _ => none
  | fuel + 1, s, c =>
    match c.rest with
    | [] => some (s, c)
    | x :: _ =>
      if c.column != indent then some (s, c)
      else do
        let blank := isBlank x
        let (line, after) := c.take (!isBreak ·)
        let lastBreak := after.rest.take 1
        let (empty, _, next) ← emptyLines (some indent) fuel 0 [] (after.advance 1)
        blockLines isFolded indent fuel ⟨line.reverse ++ s.join isFolded blank, lastBreak, empty, blank⟩ next

/-- the block scalar whose mark is at the cursor, in a collection that starts at a column -/
def block? (isFolded : Bool) (outer : Option Nat) (c : Cursor) : Option (Scalar × Cursor) := do
  let (chomping, given, c) ← blockHeader? (c.advance 1)
  let fuel := c.rest.length + 2
  let indent := given.map (· + outer.getD 0)
  let (empty, deepest, c) ← emptyLines indent fuel 0 [] c
  let indent := indent.getD (max deepest (max 1 (outer.map (· + 1) |>.getD 0)))
  let (s, c) ← blockLines isFolded indent fuel ⟨[], [], empty, false⟩ c
  let tail :=
    match chomping with
    | .strip => []
    | .clip => s.lastBreak
    | .keep => s.lastBreak ++ s.empty
  return (⟨String.ofList (s.acc.reverse ++ tail), if isFolded then .folded else .literal⟩, c)

end CallLint.Yaml.Scalar
