/-
Log lines. What is worth logging is returned as data beside the results.
-/
namespace CallLint

inductive LogLevel where
  | debug
  | warn
deriving DecidableEq, Repr, Inhabited

structure LogLine where
  level : LogLevel
  text : String
deriving DecidableEq, Repr, Inhabited

def LogLevel.render : LogLevel → String
  | .debug => "DEBUG"
  | .warn => "WARN"

def LogLine.render (l : LogLine) : String :=
  l.level.render ++ " " ++ l.text

def LogLine.debug (text : String) : LogLine :=
  ⟨.debug, text⟩

def LogLine.warn (text : String) : LogLine :=
  ⟨.warn, text⟩

end CallLint
