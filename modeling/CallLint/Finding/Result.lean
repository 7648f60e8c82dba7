/-
Results of a scan: active and suppressed findings, how many files were scanned and which could not be.
-/
import CallLint.Suppression.Basic

namespace CallLint

structure ScanResult where
  findings : List Finding
  suppressed : List SuppressedFinding
  scanned : Nat
  /-- files that could not be read or analyzed -/
  failed : List String
deriving DecidableEq, Repr, Inhabited

namespace ScanResult

def empty : ScanResult := ⟨[], [], 0, []⟩

def append (a b : ScanResult) : ScanResult :=
  ⟨a.findings ++ b.findings, a.suppressed ++ b.suppressed, a.scanned + b.scanned, a.failed ++ b.failed⟩

def addFinding (r : ScanResult) (f : Finding) : ScanResult :=
  { r with findings := r.findings ++ [f] }

/-- active findings and failed files in listing order; suppressed findings stay as they are -/
def sort (r : ScanResult) : ScanResult :=
  { r with
    findings := Finding.sort r.findings
    failed := r.failed.mergeSort fun a b => (compare a b).isLE }

def hasErrors (r : ScanResult) : Bool :=
  r.findings.any (·.severity == .error)

/-- whether there are no active findings -/
def isClean (r : ScanResult) : Bool :=
  r.findings.isEmpty

end ScanResult

end CallLint
