/-
The report for people: a heading, the outcome, the findings, the suppressed findings and the skipped files, each part
with an empty line after it.
-/
import CallLint.Finding.Result
import CallLint.Report.Style
import CallLint.Report.Tool
import CallLint.Text.Quoted

namespace CallLint

structure PrettyReport where
  /-- the scanned path as it was given -/
  path : String
  /-- the configuration file that was read -/
  config : Option String
  result : ScanResult
  /-- whether suppressed findings are listed and not only counted -/
  showSuppressed : Bool
  color : Bool

namespace PrettyReport

def line (parts : List String) : String :=
  String.join parts ++ "\n"

def keyWidth : Nat := 8

def heading (r : PrettyReport) : String :=
  line [] ++
  line ["  ", Style.boldCyan.apply r.color Tool.name, " v", Tool.version] ++
  line [] ++
  line ["  ", Style.dimmed.apply r.color "Scanning: ", r.path] ++
  (match r.config with
    | some config => line ["  ", Style.dimmed.apply r.color "Config:   ", config]
    | none => "") ++
  line []

def outcome (r : PrettyReport) : String :=
  let verdict := if r.result.isClean then Style.green.apply r.color "✓ CLEAN" else Style.red.apply r.color "✗ FINDINGS"
  let count := r.result.suppressed.length
  let suppressed :=
    if count = 0 then "" else "  " ++ Style.dimmed.apply r.color ("(" ++ toString count ++ " suppressed)")
  line ["  ", verdict, "  ", toString r.result.scanned, " files, ", toString r.result.findings.length, " findings",
    suppressed]

def severityTag (color : Bool) : Severity → String
  | .error => Style.red.apply color "ERROR"
  | .warning => Style.yellow.apply color "WARN "
  | .info => Style.blue.apply color "INFO "

def finding (color : Bool) (f : Finding) : String :=
  line ["    ", severityTag color f.severity, "    ", Style.dimmed.applyPadded color keyWidth f.rule,
    Style.blue.apply color f.file,
    Style.dimmed.apply color (":" ++ toString f.line ++ ":" ++ toString f.column)] ++
  line ["            ", f.message] ++
  line []

/-- a part's heading with a count -/
def counted (style : Style) (color : Bool) (title : String) (count : Nat) : String :=
  line ["  ", style.apply color title, " (", toString count, "):"]

def findings (r : PrettyReport) : String :=
  counted .bold r.color "Findings" r.result.findings.length ++ line [] ++
    String.join (r.result.findings.map (finding r.color))

def suppressedFinding (color : Bool) (s : SuppressedFinding) : String :=
  let place := if s.suppression.scope = .file then ":* (file)" else ":" ++ toString s.finding.line
  line ["    ", Style.dimmed.applyPadded color keyWidth s.finding.rule, Style.blue.apply color s.finding.file,
    Style.dimmed.apply color place] ++
  if s.suppression.reason.isEmpty then ""
  else line ["            ", Style.dimmed.apply color ("reason: " ++ Text.quoted s.suppression.reason)]

def suppressed (r : PrettyReport) : String :=
  counted .dimmed r.color "Suppressed" r.result.suppressed.length ++
    if r.showSuppressed then line [] ++ String.join (r.result.suppressed.map (suppressedFinding r.color))
    else line ["    ", Style.dimmed.apply r.color "(use --show-suppressed to see details)"]

def skipped (r : PrettyReport) : String :=
  counted .yellow r.color "Skipped" r.result.failed.length ++
    String.join (r.result.failed.map fun file => line ["    ", Style.dimmed.apply r.color file])

/-- a part and an empty line, unless there is nothing to list -/
def part (isEmpty : Bool) (text : String) : String :=
  if isEmpty then "" else text ++ line []

def render (r : PrettyReport) : String :=
  r.heading ++ part false r.outcome ++ part r.result.findings.isEmpty r.findings ++
    part r.result.suppressed.isEmpty r.suppressed ++ part r.result.failed.isEmpty r.skipped

end PrettyReport

end CallLint
