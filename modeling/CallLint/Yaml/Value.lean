/-
What nodes say where a value of a certain type is expected. Any scalar is a text, however it is tagged. A list or a
record for which nothing is written is an empty one. Numbers are plain scalars, or literal ones tagged as integers.
-/
import CallLint.Text.Digits
import CallLint.Text.Split
import CallLint.Yaml.Tree

namespace CallLint.Yaml

/-- the tag of integers -/
def integerTag : String := "tag:yaml.org,2002:int"

/-- marks of the radix before digits, and the radix -/
def radixMarks : List (List Char × Nat) :=
  [(['0', 'x'], 16), (['0', 'o'], 8), (['0', 'b'], 2)]

/-- digits that start with a needless zero are no number -/
def hasNeedlessZero (digits : List Char) : Bool :=
  ['0'].isPrefixOf digits && 1 < digits.length

/-- a number of 64 bits: decimal digits, or digits of another radix after its mark; a plus sign may stand before it -/
def readNumber? (text : String) : Option Nat :=
  let cs := (Text.dropLeading ['+'] text.toList).getD text.toList
  match radixMarks.findSome? fun (mark, radix) => (Text.dropLeading mark cs).map (·, radix) with
  | some (digits, radix) => Text.wordValue? radix digits
  | none => if hasNeedlessZero cs then none else Text.wordValue? 10 cs

namespace Node

/-- whether nothing is written for a node -/
def isMissing : Node → Bool
  | .scalar s _ => s == .missing
  | _ => false

end Node

namespace Document

def text? (d : Document) (node : Node) : Option String :=
  match d.resolve node with
  | .scalar s _ => some s.text
  | _ => none

def number? (d : Document) (node : Node) : Option Nat :=
  match d.resolve node with
  | .scalar s tag =>
    if s.style == .plain || (s.style == .literal && tag == some integerTag) then readNumber? s.text else none
  | _ => none

/-- the items of a list -/
def items? (d : Document) (node : Node) : Option (List Node) :=
  match d.resolve node with
  | .sequence items => some items
  | content => if content.isMissing then some [] else none

def texts? (d : Document) (node : Node) : Option (List String) :=
  (d.items? node).bind (·.mapM d.text?)

def entries? (d : Document) (node : Node) : Option (List (Node × Node)) :=
  match d.resolve node with
  | .mapping entries => some entries
  | content => if content.isMissing then some [] else none

/-- the fields of a record: every key is one of the names, and none comes twice -/
def fields? (d : Document) (names : List String) (node : Node) : Option (List (String × Node)) := do
  let entries ← d.entries? node
  let keys ← entries.mapM fun (key, _) => d.text? key
  if keys.all names.contains && keys.eraseDups.length == keys.length then return keys.zip (entries.map (·.2)) else none

end Document

end CallLint.Yaml
