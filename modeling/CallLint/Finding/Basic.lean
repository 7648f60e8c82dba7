/-
Findings: what a rule reports at a place in a file, and the order in which they are listed.
-/
import CallLint.Unit.Span

namespace CallLint

inductive Severity where
  | error
  | warning
  | info
deriving DecidableEq, Repr, Inhabited

namespace Severity

def all : List Severity :=
  [error, warning, info]

def render : Severity → String
  | error => "error"
  | warning => "warning"
  | info => "info"

/-- The severity of a word in any case. Only ASCII letters have these letters as their lower case. -/
def read? (word : String) : Option Severity :=
  all.find? fun s => s.render == word.toLower

/-- what is said of a word that is no severity -/
def unknownMessage (word : String) : String :=
  "unknown severity: " ++ word

end Severity

structure Finding where
  /-- key of the rule -/
  rule : String
  message : String
  file : String
  line : Nat
  column : Nat
  severity : Severity
deriving DecidableEq, Repr, Inhabited

namespace Finding

/-- a finding at the start of a span -/
def ofSpan (rule : String) (severity : Severity) (file : String) (span : Span) (message : String) : Finding :=
  ⟨rule, message, file, span.startLine, span.startColumn, severity⟩

/-- rule, file and position as one text -/
def key (f : Finding) : String :=
  f.rule ++ "|" ++ f.file ++ "|" ++ toString f.line ++ ":" ++ toString f.column

/-- by file, then by position, then by rule -/
def compare : Finding → Finding → Ordering :=
  compareLex (compareOn fun f => f.file)
    (compareLex (compareOn fun f => f.line)
      (compareLex (compareOn fun f => f.column) (compareOn fun f => f.rule)))

instance : Std.TransCmp Finding.compare := by
  unfold Finding.compare
  infer_instance

/-- findings in listing order; those at one place and of one rule keep their order -/
def sort (fs : List Finding) : List Finding :=
  fs.mergeSort fun a b => (a.compare b).isLE

end Finding

end CallLint
