/-
The report in the Static Analysis Results Interchange Format. It lists the rules that have findings, in the order of
their keys, and one result for each finding. Lines and columns start at 1, and paths have forward slashes.
-/
import CallLint.Finding.Result
import CallLint.Report.Json
import CallLint.Report.Tool
import CallLint.Rule.Basic

namespace CallLint.Sarif

def formatVersion : String := "2.1.0"

def schemaUri : String :=
  "https://raw.githubusercontent.com/oasis-tcs/sarif-spec/master/Schemata/sarif-schema-2.1.0.json"

def level : Severity → String
  | .error => "error"
  | .warning => "warning"
  | .info => "note"

/-- what is said about a rule -/
structure RuleEntry where
  id : String
  name : String
  shortDescription : String
  fullDescription : Option String
  level : String
deriving DecidableEq, Repr, Inhabited

structure ResultEntry where
  ruleId : String
  level : String
  message : String
  uri : String
  startLine : Nat
  startColumn : Nat
deriving DecidableEq, Repr, Inhabited

structure Log where
  rules : List RuleEntry
  results : List ResultEntry
deriving DecidableEq, Repr, Inhabited

/-- the entry of a rule; little is known of rules that do not exist -/
def RuleEntry.ofKey (key : String) : RuleEntry :=
  match RuleKind.named? key with
  | some k => ⟨k.key, k.title, k.title, some k.description, Sarif.level k.severity⟩
  | none => ⟨key, "Unknown", "Unknown rule", none, "warning"⟩

def ResultEntry.ofFinding (f : Finding) : ResultEntry :=
  { ruleId := f.rule
    level := Sarif.level f.severity
    message := f.message
    uri := String.ofList (f.file.toList.map fun c => if c = '\\' then '/' else c)
    startLine := max f.line 1
    startColumn := max f.column 1 }

/-- the keys of findings, each once, in increasing order -/
def ruleKeys (fs : List Finding) : List String :=
  (fs.map (·.rule)).eraseDups.mergeSort fun a b => (compare a b).isLE

def Log.ofResult (r : ScanResult) : Log :=
  ⟨(ruleKeys r.findings).map RuleEntry.ofKey, r.findings.map ResultEntry.ofFinding⟩

def textObject (text : String) : JsonValue :=
  .object [("text", .text text)]

def RuleEntry.toValue (e : RuleEntry) : JsonValue :=
  .object ([("id", .text e.id), ("name", .text e.name), ("shortDescription", textObject e.shortDescription)] ++
    (e.fullDescription.map fun d => ("fullDescription", textObject d)).toList ++
    [("defaultConfiguration", .object [("level", .text e.level)])])

def ResultEntry.toValue (e : ResultEntry) : JsonValue :=
  let region : JsonValue := .object [("startLine", .number e.startLine), ("startColumn", .number e.startColumn)]
  let location : JsonValue := .object [("artifactLocation", .object [("uri", .text e.uri)]), ("region", region)]
  .object [("ruleId", .text e.ruleId), ("level", .text e.level), ("message", textObject e.message),
    ("locations", .list [.object [("physicalLocation", location)]])]

def Log.toValue (l : Log) : JsonValue :=
  let driver : JsonValue := .object [("name", .text Tool.name), ("version", .text Tool.version),
    ("informationUri", .text Tool.informationUri), ("rules", .list (l.rules.map (·.toValue)))]
  let run : JsonValue :=
    .object [("tool", .object [("driver", driver)]), ("results", .list (l.results.map (·.toValue)))]
  .object [("version", .text formatVersion), ("$schema", .text schemaUri), ("runs", .list [run])]

/-- the report's text with a line end after it -/
def Log.render (l : Log) : String :=
  l.toValue.render ++ "\n"

end CallLint.Sarif
