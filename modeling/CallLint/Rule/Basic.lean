/-
The rules: how each is called and described, and the selection of rules by their keys. A rule is built once from the
settings and then checks any number of units.
-/
import CallLint.Rule.DynamicCode
import CallLint.Rule.MissingAssertions
import CallLint.Rule.Log
import CallLint.Finding.Basic
import CallLint.Text.Quoted

namespace CallLint

inductive RuleKind where
  | dynamicCode
  | missingAssertions
deriving DecidableEq, Repr, Inhabited

namespace RuleKind

/-- all rules in the order in which they are listed and run -/
def all : List RuleKind :=
  [dynamicCode, missingAssertions]

def key : RuleKind → String
  | dynamicCode => "S1523"
  | missingAssertions => "S2699"

def title : RuleKind → String
  | dynamicCode => "Dynamically executing code is security-sensitive"
  | missingAssertions => "Tests should include assertions"

def description : RuleKind → String
  | dynamicCode => "Reflective class loading and member lookup whose target name is not a compile-time constant."
  | missingAssertions => "Test methods that never reach a known assertion, verification or expectation call."

def severity : RuleKind → Severity
  | dynamicCode => .warning
  | missingAssertions => .error

/-- what every finding of the rule says -/
def message : RuleKind → String
  | dynamicCode => "Make sure that this dynamic injection or execution of code is safe."
  | missingAssertions => "Add at least one assertion to this test case."

/-- the rule of a key in any case of ASCII letters -/
def named? (key : String) : Option RuleKind :=
  all.find? fun k => k.key.toLower == key.toLower

/-- severity of the rule of a key; of unknown keys that of a warning -/
def severityOf (key : String) : Severity :=
  ((named? key).map (·.severity)).getD .warning

/-- key, title and severity in one line -/
def summary (k : RuleKind) : String :=
  let severity :=
    match k.severity with
    | .error => "Error"
    | .warning => "Warning"
    | .info => "Info"
  "RuleDescriptor \x7b key: " ++ Text.quoted k.key ++ ", name: " ++ Text.quoted k.title ++ ", severity: " ++ severity ++
    " \x7d"

end RuleKind

/-- a rule ready to check units -/
inductive Rule where
  | dynamicCode
  | missingAssertions (assertions : Catalog) (depth : Nat)

namespace Rule

def kind : Rule → RuleKind
  | dynamicCode => .dynamicCode
  | missingAssertions _ _ => .missingAssertions

def build (settings : RuleSettings) : RuleKind → Rule
  | .dynamicCode => dynamicCode
  | .missingAssertions => missingAssertions (MissingAssertions.catalog settings) settings.callDepth

/-- what is logged when a rule is built -/
def buildLog (settings : RuleSettings) : RuleKind → List LogLine
  | .dynamicCode => []
  | .missingAssertions =>
    let custom := EntryList.read settings.customMethods
    custom.rejected.map (fun r => .warn r.message) ++
      [.debug (RuleKind.missingAssertions.key ++ ": " ++ toString custom.catalog.size ++
        " custom assertion methods, call depth " ++ toString settings.callDepth)]

def violations (u : CompilationUnit) : Rule → List Span
  | dynamicCode => DynamicCode.violations u
  | missingAssertions assertions depth => MissingAssertions.violations u assertions depth

/-- the findings of a rule in a unit -/
def check (u : CompilationUnit) (r : Rule) : List Finding :=
  (r.violations u).map fun span => .ofSpan r.kind.key r.kind.severity u.path span r.kind.message

end Rule

/-- a key that names no rule -/
structure UnknownRule where
  key : String
deriving DecidableEq, Repr, Inhabited

def UnknownRule.message (e : UnknownRule) : String :=
  "unknown rule key: " ++ e.key

namespace RuleKind

/-- the rules of keys, each once, in the order of first mention -/
def ofKeys : List String → List RuleKind → Except UnknownRule (List RuleKind)
  | [], selected => .ok selected
  | key :: keys, selected =>
    match named? key with
    | none => .error ⟨key⟩
    | some k => ofKeys keys (if selected.contains k then selected else selected ++ [k])

/-- the rules of keys; all rules when there are no keys -/
def select (keys : List String) : Except UnknownRule (List RuleKind) :=
  if keys.isEmpty then .ok all else ofKeys keys []

end RuleKind

end CallLint
