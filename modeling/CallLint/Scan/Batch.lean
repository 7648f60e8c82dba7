/-
Scans of many files. Every rule checks every file; the results of all files are put together and sorted. A file that
cannot be read or analyzed is recorded as failed and changes nothing for the others.
-/
import CallLint.Finding.Result
import CallLint.Rule.Basic
import CallLint.Scan.Basic

namespace CallLint.Scan

/-- a result with what was logged on the way -/
structure Logged where
  result : ScanResult
  log : List LogLine

def Logged.append (a b : Logged) : Logged :=
  ⟨a.result.append b.result, a.log ++ b.log⟩

/-- all findings of the rules in a unit, rule by rule -/
def findings (rules : List Rule) (u : CompilationUnit) : List Finding :=
  rules.flatMap (·.check u)

/-- the result of a file whose unit is known -/
def unitResult (rules : List Rule) (relative : List Char) (source : Source) (u : CompilationUnit) : Logged :=
  let file := String.ofList relative
  let (active, suppressed) := Suppression.split (Suppression.ofText file source.lossyText) (findings rules u)
  ⟨⟨active, suppressed, 1, []⟩,
    unitLog u ++ [.debug (file ++ ": " ++ toString active.length ++ " findings, " ++ toString suppressed.length ++
      " suppressed")]⟩

/-- the result of a file, or why there is none -/
def checkFile [Recovery] (w : Workspace) (rules : List Rule) (base path : List Char) :
    Except Fault (Except ScanError Logged) := do
  let absolute := absolutePath base path
  let relative := relativePath base absolute
  match w.read absolute with
  | .error e => return .error (.unreadable absolute e)
  | .ok bytes =>
    let source := Source.ofBytes bytes
    return (← analyzeSource relative source).map (unitResult rules relative source)

/-- the result of a file that failed -/
def failure (path : List Char) (e : ScanError) : Logged :=
  let file := String.ofList path
  ⟨⟨[], [], 0, [file]⟩, [.warn ("skipping " ++ file ++ ": " ++ e.message)]⟩

def scanFile [Recovery] (w : Workspace) (rules : List Rule) (base path : List Char) : Except Fault Logged := do
  match ← checkFile w rules base path with
  | .ok logged => return logged
  | .error e => return failure path e

/-- the sorted result of a list of files -/
def run [Recovery] (w : Workspace) (rules : List Rule) (base : List Char) (paths : List (List Char)) :
    Except Fault Logged := do
  let parts ← paths.mapM (scanFile w rules base)
  let all := parts.foldl Logged.append ⟨.empty, []⟩
  return { all with result := all.result.sort }

end CallLint.Scan
