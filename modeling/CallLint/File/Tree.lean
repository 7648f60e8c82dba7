/-
File trees, and the meaning of paths in them. Every segment of a path but the first is looked up in a folder, so a
slash after a file's name leads nowhere.
-/
import CallLint.File.Path
import CallLint.Text.Utf8

namespace CallLint

inductive FileTree where
  | file (bytes : List UInt8)
  | folder (entries : List (String × FileTree))
deriving Inhabited

inductive FileError where
  | notFound
  | notFolder
  | isFolder
  | notText
deriving DecidableEq, Repr

def FileError.message : FileError → String
  | .notFound => "No such file or directory (os error 2)"
  | .notFolder => "Not a directory (os error 20)"
  | .isFolder => "Is a directory (os error 21)"
  | .notText => "stream did not contain valid UTF-8"

namespace FileTree

def isFolder : FileTree → Bool
  | folder _ => true
  | file _ => false

def entry? (t : FileTree) (name : String) : Option FileTree :=
  match t with
  | folder entries => entries.lookup name
  | file _ => none

/-- entries with the one of a name replaced, or added at the end -/
def setEntry (name : String) (t : FileTree) : List (String × FileTree) → List (String × FileTree)
  | [] => [(name, t)]
  | (n, old) :: rest => if n = name then (n, t) :: rest else (n, old) :: setEntry name t rest

/-- the tree with another tree put at a place; folders on the way are made -/
def put (t : FileTree) : List String → FileTree → FileTree
  | [], new => new
  | name :: names, new =>
    match t with
    | folder entries => folder (setEntry name (((t.entry? name).getD (folder [])).put names new) entries)
    | file _ => folder [(name, (folder []).put names new)]

/-- the tree at a place -/
def at? (t : FileTree) : List String → Option FileTree
  | [] => some t
  | name :: names => (t.entry? name).bind (·.at? names)

end FileTree

/-- a file system seen from a folder in it -/
structure Workspace where
  root : FileTree
  /-- names of the folders that lead to the current one -/
  current : List String

namespace Workspace

/-- one step from a place; the place must be a folder -/
def step (w : Workspace) (place : List String) (segment : List Char) : Except FileError (List String) :=
  match w.root.at? place with
  | none => .error .notFound
  | some (.file _) => .error .notFolder
  | some (.folder _) =>
    match segment with
    | [] => .ok place
    | ['.'] => .ok place
    | ['.', '.'] => .ok place.dropLast
    | name =>
      let next := place ++ [String.ofList name]
      if (w.root.at? next).isSome then .ok next else .error .notFound

/-- the place that a path leads to -/
def resolve (w : Workspace) (path : List Char) : Except FileError (List String) :=
  if path.isEmpty then .error .notFound
  else (Text.splitAt '/' path).foldlM w.step (if Path.isAbsolute path then [] else w.current)

def treeAt (w : Workspace) (path : List Char) : Except FileError FileTree := do
  match w.root.at? (← w.resolve path) with
  | some t => return t
  | none => .error .notFound

/-- bytes of the file at a path -/
def read (w : Workspace) (path : List Char) : Except FileError (List UInt8) := do
  match ← w.treeAt path with
  | .file bytes => return bytes
  | .folder _ => .error .isFolder

/-- text of the file at a path -/
def readText (w : Workspace) (path : List Char) : Except FileError String := do
  match Text.decode? (← w.read path) with
  | some text => return text
  | none => .error .notText

def isFile (w : Workspace) (path : List Char) : Bool :=
  match w.treeAt path with
  | .ok (.file _) => true
  | _ => false

/-- the absolute path of a place -/
def render (place : List String) : List Char :=
  if place.isEmpty then ['/'] else place.flatMap fun name => '/' :: name.toList

end Workspace

end CallLint
