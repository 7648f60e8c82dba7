/-
Configuration of a scan: which rules run, which paths are left out, and the settings of the rules. `Config.plan` turns
a configuration into what a scan needs; it is the only place where a configuration can be refused.
-/
import CallLint.File.Tree
import CallLint.Glob.Reader
import CallLint.Rule.Basic

namespace CallLint

structure Config where
  /-- keys of the rules to run; all rules run when there are none -/
  rules : List String
  /-- patterns of the paths to leave out -/
  excludedPaths : List String
  settings : RuleSettings
deriving DecidableEq, Repr, Inhabited

/-- what takes precedence over a configuration -/
structure Overrides where
  rules : List String
  customMethods : Option String
  callDepth : Option Nat
deriving DecidableEq, Repr, Inhabited

inductive ConfigError where
  | unreadable (path : String) (error : FileError)
  /-- the file at a path is no configuration -/
  | malformed (path : String)
  | unknownRule (key : String)
  | invalidGlob (error : InvalidGlob)
  | callDepthOutOfRange (depth : Nat)
deriving DecidableEq, Repr

namespace Config

def standard : Config :=
  ⟨[], [], .standard⟩

/-- the deepest call depth that can be asked for -/
def callDepthLimit : Nat := 64

/-- an empty list of rules overrides nothing -/
def override (c : Config) (o : Overrides) : Config :=
  { c with
    rules := if o.rules.isEmpty then c.rules else o.rules
    settings := ⟨o.customMethods.getD c.settings.customMethods, o.callDepth.getD c.settings.callDepth⟩ }

end Config

namespace ConfigError

def message : ConfigError → String
  | unreadable path error => "reading " ++ path ++ ": " ++ error.message
  | malformed path => "parsing " ++ path
  | unknownRule key => "unknown rule key " ++ Text.quoted key
  | invalidGlob error => error.message
  | callDepthOutOfRange depth =>
    "max_call_depth " ++ toString depth ++ " out of range, must be 0..=" ++ toString Config.callDepthLimit

/-- the message with that of its cause after it, where there is one -/
def report : ConfigError → String
  | unreadable path error => (unreadable path error).message ++ ": " ++ error.message
  | error => error.message

end ConfigError

/-- what a scan needs to know -/
structure ScanPlan where
  rules : List RuleKind
  settings : RuleSettings
  exclusions : Globs

namespace Config

/-- the paths to leave out -/
def exclusions (c : Config) : Except ConfigError Globs :=
  (Globs.ofPatterns c.excludedPaths).mapError .invalidGlob

/-- the plan of a configuration; of several faults that of the rules is reported first and that of the depth last -/
def plan (c : Config) : Except ConfigError ScanPlan := do
  let rules ← (RuleKind.select c.rules).mapError fun e => .unknownRule e.key
  let exclusions ← c.exclusions
  if callDepthLimit < c.settings.callDepth then .error (.callDepthOutOfRange c.settings.callDepth)
  else return ⟨rules, c.settings, exclusions⟩

end Config

end CallLint
