/-
Paths as texts. A path is its root or a leading point, if it has one, and then segments between slashes; empty segments
and further points name nothing. Paths are compared, stripped and ordered by the components that are left.
-/
import CallLint.Text.Split

namespace CallLint

/-- one step of a path -/
inductive PathComponent where
  | root
  /-- the point at the start of a relative path -/
  | here
  | up
  | name (text : List Char)
deriving DecidableEq, Repr

namespace Path

/-- a path's start, and the segments after it as written -/
structure Parts where
  start : Option PathComponent
  segments : List (List Char)
deriving DecidableEq, Repr

def isAbsolute (path : List Char) : Bool :=
  ['/'].isPrefixOf path

def parts (path : List Char) : Parts :=
  match Text.splitAt '/' path with
  | [] :: next :: rest => ⟨some .root, next :: rest⟩
  | ['.'] :: rest => ⟨some .here, rest⟩
  | segments => ⟨none, segments⟩

/-- the step that a segment after the start makes, if it makes one -/
def componentOf? : List Char → Option PathComponent
  | [] => none
  | ['.'] => none
  | ['.', '.'] => some .up
  | segment => some (.name segment)

def components (path : List Char) : List PathComponent :=
  let p := parts path
  p.start.toList ++ p.segments.filterMap componentOf?

/-- segments without those at either end that make no step -/
def trimSegments (segments : List (List Char)) : List (List Char) :=
  let fillers (s : List Char) : Bool := (componentOf? s).isNone
  ((segments.dropWhile fillers).reverse.dropWhile fillers).reverse

/-- a path without the segments at its end that make no step -/
def trimEnd (path : List Char) : List Char :=
  let p := parts path
  let kept := Text.joinWith '/' ((p.segments.reverse.dropWhile fun s => (componentOf? s).isNone).reverse)
  match p.start with
  | some .root => '/' :: kept
  | some _ => if kept.isEmpty then ['.'] else '.' :: '/' :: kept
  | none => kept

/-- what follows the segments that make given steps -/
def dropSteps : List PathComponent → List (List Char) → Option (List (List Char))
  | [], segments => some segments
  | _ :: _, [] => none
  | c :: cs, s :: segments =>
    match componentOf? s with
    | none => dropSteps (c :: cs) segments
    | some found => if found = c then dropSteps cs segments else none

/-- what follows the components of `base` in a path that starts with them -/
def strip? (base path : List Char) : Option (List Char) :=
  let p := parts path
  let rest :=
    match components base, p.start with
    | [], _ => none
    | c :: cs, some start => if c = start then dropSteps cs p.segments else none
    | cs, none => dropSteps cs p.segments
  if (components base).isEmpty then some (trimEnd path)
  else rest.map fun segments => Text.joinWith '/' (trimSegments segments)

/-- a path seen from a base; an absolute path stays as it is -/
def join (base path : List Char) : List Char :=
  if isAbsolute path || base.isEmpty then path
  else if ['/'].isSuffixOf base then base ++ path
  else base ++ '/' :: path

/-- the last component, when it is a name -/
def fileName? (path : List Char) : Option (List Char) :=
  match (components path).getLast? with
  | some (.name text) => some text
  | _ => none

/-- what follows the last point of a name; none when nothing stands before it -/
def extensionOfName? (name : List Char) : Option (List Char) :=
  match Text.splitLast '.' name with
  | some ([], _) => none
  | some (_, ext) => some ext
  | none => none

/-- the extension of a path's last component -/
def extension? (path : List Char) : Option (List Char) :=
  (fileName? path).bind extensionOfName?

end Path

end CallLint
