/-
Commands: how arguments become one, and what running it gives.
-/
import CallLint.Command.Arguments
import CallLint.Command.Lint
import CallLint.Command.Listing

namespace CallLint

inductive Command where
  | lint (options : LintOptions)
  | rules
deriving DecidableEq, Repr, Inhabited

structure Invocation where
  verbose : Bool
  command : Command
deriving DecidableEq, Repr, Inhabited

namespace Command

/-- the format of reports when none is asked for -/
def standardFormat : String := "pretty"

def lintOfGiven (g : Given) : Except UsageError Command :=
  match g.value? .path with
  | none => .error .missingPath
  | some path =>
    .ok (.lint ⟨path, g.value? .config, (g.value? .format).getD standardFormat,
      ⟨g.valuesOf .rule, g.value? .customMethods, (g.value? .callDepth).bind readDepth?⟩,
      g.switches.contains .showSuppressed⟩)

/-- help on a command, whose name must be the only one -/
def helpOn : List String → UsageError
  | [] => .helpAsked
  | name :: rest => if (CommandName.read? name).isSome && rest.isEmpty then .helpAsked else .unknownCommand

def run [Recovery] (w : Workspace) (color : Bool) : Command → Except Fault CommandOutcome
  | lint options => Lint.run w color options
  | rules => .ok Listing.outcome

end Command

/-- the command that arguments ask for; it is verbose when the switch is set before or after the command's name -/
def Invocation.read (args : List String) : Except UsageError Invocation := do
  let (top, next) ← Level.top.read false .empty args
  match next with
  | none => .error (if top.switches.isEmpty then .noArguments else .noCommand)
  | some (.help, rest) => .error (Command.helpOn rest)
  | some (.lint, rest) =>
    let (given, _) ← Level.lint.read false .empty rest
    return ⟨(top.switches ++ given.switches).contains .verbose, ← Command.lintOfGiven given⟩
  | some (.rules, rest) =>
    let (given, _) ← Level.rules.read false .empty rest
    return ⟨(top.switches ++ given.switches).contains .verbose, .rules⟩

end CallLint
