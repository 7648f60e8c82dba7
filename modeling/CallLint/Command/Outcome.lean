/-
Outcomes of commands: what is printed, where, and the exit code.
-/
import CallLint.Rule.Log

namespace CallLint

inductive ExitStatus where
  /-- nothing was found -/
  | clean
  /-- there are active findings -/
  | findings
  /-- the command could not be carried out -/
  | failed
deriving DecidableEq, Repr, Inhabited

def ExitStatus.code : ExitStatus → Nat
  | clean => 0
  | findings => 1
  | failed => 2

structure CommandOutcome where
  status : ExitStatus
  output : String
  /-- what goes to the channel of errors -/
  errors : String
  log : List LogLine
deriving DecidableEq, Repr, Inhabited

end CallLint
