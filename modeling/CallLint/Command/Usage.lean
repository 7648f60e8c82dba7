/-
What people are told when arguments lead to no command that runs.
-/
import CallLint.Command.Arguments
import CallLint.Report.Tool

namespace CallLint

namespace Tool

def versionLine : String := name ++ " " ++ version

def usage : String :=
  "Usage: " ++ name ++ " [-v] lint PATH [-c FILE] [-f pretty|json|sarif] [-r KEY]... [--custom-assertion-methods LIST]\n" ++
    "           [--max-call-depth N] [--show-suppressed]\n" ++
    "       " ++ name ++ " [-v] rules"

end Tool

def UsageError.message : UsageError → String
  | helpAsked => Tool.usage
  | versionAsked => Tool.versionLine
  | noArguments => Tool.usage
  | noCommand => "error: a command is missing\n" ++ Tool.usage
  | unknownCommand => "error: there is no such command\n" ++ Tool.usage
  | unknownArgument => "error: an argument is not known\n" ++ Tool.usage
  | missingValue => "error: a value is missing\n" ++ Tool.usage
  | invalidNumber => "error: a value is not a number\n" ++ Tool.usage
  | repeatedArgument => "error: an argument may not be repeated\n" ++ Tool.usage
  | unexpectedValue => "error: an argument takes no value\n" ++ Tool.usage
  | missingPath => "error: the path to scan is missing\n" ++ Tool.usage

end CallLint
