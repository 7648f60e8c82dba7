/-
Analysis of single files. Files are read relative to a base folder, and a file below it goes by its path from there.
-/
import CallLint.File.Tree
import CallLint.Rule.Log
import CallLint.Source.Analysis

namespace CallLint

namespace Language

def name : String := "java"

/-- extensions of the files that can be analyzed -/
def extensions : List String := ["java"]

def handles (ext : List Char) : Bool :=
  extensions.contains (String.ofList ext)

/-- whether files at a path can be analyzed -/
def isSupported (path : List Char) : Bool :=
  handles ((Path.extension? path).getD [])

end Language

inductive ScanError where
  /-- the file at a path cannot be read -/
  | unreadable (path : List Char) (error : FileError)
  /-- files at a path cannot be analyzed -/
  | unsupported (path : List Char)
deriving DecidableEq, Repr

def ScanError.message : ScanError → String
  | .unreadable path error => "reading " ++ String.ofList path ++ ": " ++ error.message
  | .unsupported path => "no analyzer for " ++ String.ofList path

namespace Scan

/-- a path seen from the base folder -/
def absolutePath (base path : List Char) : List Char :=
  Path.join base path

/-- the path by which a file goes: from the base folder on, when the file lies below it -/
def relativePath (base absolute : List Char) : List Char :=
  (Path.strip? base absolute).getD absolute

/-- the unit of a source text; the path says which language it is in -/
def analyzeSource [Recovery] (path : List Char) (source : Source) : Except Fault (Except ScanError CompilationUnit) :=
  if Language.isSupported path then (source.unit (String.ofList path)).map .ok
  else .ok (.error (.unsupported path))

/-- what is logged about a unit -/
def unitLog (u : CompilationUnit) : List LogLine :=
  if u.hasParseErrors then [.debug (u.path ++ ": source contains syntax errors")] else []

/-- the unit of a file; a file of no known language has an empty one -/
def analyzeFile [Recovery] (w : Workspace) (base path : List Char) : Except Fault (Except ScanError CompilationUnit) :=
  let absolute := absolutePath base path
  let relative := relativePath base absolute
  if Language.isSupported absolute then
    match w.read absolute with
    | .error e => .ok (.error (.unreadable absolute e))
    | .ok bytes => analyzeSource relative (Source.ofBytes bytes)
  else .ok (.ok (CompilationUnit.empty (String.ofList relative)))

end Scan

end CallLint
