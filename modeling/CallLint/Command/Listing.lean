/-
The command that lists the rules: key, severity and title of each.
-/
import CallLint.Command.Outcome
import CallLint.Report.Style
import CallLint.Rule.Basic

namespace CallLint.Listing

/-- width of the columns before the last one -/
def columnWidth : Nat := 8

def column (text : String) : String :=
  String.ofList (Style.pad columnWidth text.toList)

def line (k : RuleKind) : String :=
  "  " ++ column k.key ++ " " ++ column k.severity.render ++ " " ++ k.title ++ "\n"

def outcome : CommandOutcome :=
  ⟨.clean, "Available rules:\n\n" ++ String.join (RuleKind.all.map line), "", []⟩

end CallLint.Listing
