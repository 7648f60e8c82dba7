/-
Selection of the files to scan. Below a folder these are all files of the language, but not those in folders of build
output or with a leading point, nor those whose path from the folder on is excluded. A single file is selected whatever
its name is, unless its path is excluded. Excluded files are logged.
-/
import CallLint.Glob.Reader
import CallLint.Scan.Basic

namespace CallLint

/-- files to scan, and the folder as seen from which they go by their paths -/
structure Selection where
  base : List Char
  paths : List (List Char)
  log : List LogLine

namespace Selection

/-- names of folders that hold build output -/
def outputFolders : List String :=
  ["build", "target", "out"]

def isSkippedFolder (name : String) : Bool :=
  ['.'].isPrefixOf name.toList || outputFolders.contains name

def isSourceName (name : String) : Bool :=
  (Path.extensionOfName? name.toList).any Language.handles

/-- the places of all files of the language below a folder with these entries -/
def sourceFiles : List (String × FileTree) → List (List String)
  | [] => []
  | (name, .file _) :: rest => (if isSourceName name then [[name]] else []) ++ sourceFiles rest
  | (name, .folder entries) :: rest =>
    (if isSkippedFolder name then [] else (sourceFiles entries).map (name :: ·)) ++ sourceFiles rest

/-- a place below a folder as a path from there -/
def relativeText (place : List String) : List Char :=
  Text.joinWith '/' (place.map (·.toList))

def excludedLine (path : List Char) : LogLine :=
  .debug ("excluded " ++ String.ofList path)

/-- the files below a folder, sorted by the names on the way to them -/
def ofFolder (exclusions : Globs) (place : List String) (entries : List (String × FileTree)) : Selection :=
  let (excluded, kept) := (sourceFiles entries).partition fun file => exclusions.accepts (relativeText file)
  ⟨Workspace.render place,
    (kept.mergeSort fun a b => (compare a b).isLE).map fun file => Workspace.render (place ++ file),
    excluded.map fun file => excludedLine (relativeText file)⟩

/-- a single file; `given` is its path as it was given -/
def ofFile (exclusions : Globs) (given : List Char) (place : List String) : Selection :=
  let path := Workspace.render place
  if exclusions.accepts given || exclusions.accepts path then
    ⟨Workspace.render place.dropLast, [], [excludedLine given]⟩
  else ⟨Workspace.render place.dropLast, [path], []⟩

/-- the files that a path stands for -/
def ofPath (w : Workspace) (exclusions : Globs) (given : List Char) : Except FileError Selection := do
  let place ← w.resolve given
  match w.root.at? place with
  | some (.folder entries) => return ofFolder exclusions place entries
  | some (.file _) => return ofFile exclusions given place
  | none => .error .notFound

end Selection

end CallLint
