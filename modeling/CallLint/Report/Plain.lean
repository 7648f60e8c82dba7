/-
The report for other programs: a result as one JSON object. Reasons and lists that are empty are left out, but the list
of findings and the counts are always there.
-/
import CallLint.Finding.Result
import CallLint.Report.Json
import CallLint.Report.Tool

namespace CallLint

/-- a suppression as it is reported beside its finding -/
structure ReportedSuppression where
  rule : String
  reason : String
  line : Nat
  scope : SuppressionScope
deriving DecidableEq, Repr, Inhabited

structure PlainReport where
  version : String
  /-- the scanned path as it was given -/
  path : String
  filesScanned : Nat
  findings : List Finding
  suppressed : List (Finding × ReportedSuppression)
  suppressedCount : Nat
  failed : List String
deriving DecidableEq, Repr, Inhabited

namespace PlainReport

def ofResult (path : String) (r : ScanResult) : PlainReport :=
  { version := Tool.version
    path := path
    filesScanned := r.scanned
    findings := r.findings
    suppressed := r.suppressed.map fun s =>
      (s.finding, ⟨s.suppression.rule, s.suppression.reason, s.suppression.line, s.suppression.scope⟩)
    suppressedCount := r.suppressed.length
    failed := r.failed }

def findingValue (f : Finding) : JsonValue :=
  .object [("rule", .text f.rule), ("severity", .text f.severity.render), ("file", .text f.file),
    ("line", .number f.line), ("column", .number f.column), ("message", .text f.message)]

def suppressionValue (s : ReportedSuppression) : JsonValue :=
  .object ([("rule", .text s.rule)] ++ (if s.reason.isEmpty then [] else [("reason", .text s.reason)]) ++
    [("line", .number s.line), ("type", .text s.scope.render)])

def suppressedValue (entry : Finding × ReportedSuppression) : JsonValue :=
  .object [("finding", findingValue entry.1), ("suppression", suppressionValue entry.2)]

/-- a member with a list, left out when the list is empty -/
def listMember (name : String) (elements : List JsonValue) : List (String × JsonValue) :=
  if elements.isEmpty then [] else [(name, .list elements)]

def toValue (r : PlainReport) : JsonValue :=
  .object ([("version", .text r.version), ("path", .text r.path), ("files_scanned", .number r.filesScanned),
      ("findings", .list (r.findings.map findingValue))] ++
    listMember "suppressed" (r.suppressed.map suppressedValue) ++
    [("suppressed_count", .number r.suppressedCount)] ++
    listMember "failed" (r.failed.map .text))

/-- the report's text with a line end after it -/
def render (r : PlainReport) : String :=
  r.toValue.render ++ "\n"

end PlainReport

end CallLint
