/-
Command line arguments. A level of the command line knows switches, options that take one value, and at most one path or
the names of commands. The value of an option, and a path, is examined when the next switch, option or path begins, or
at the end; before that, an unknown argument is what gets reported.
-/
import CallLint.Text.Digits
import CallLint.Text.Split

namespace CallLint

/-- why arguments do not lead to a command that runs -/
inductive UsageError where
  | helpAsked
  | versionAsked
  | noArguments
  | noCommand
  | unknownCommand
  | unknownArgument
  /-- an option without a value, or an empty path -/
  | missingValue
  /-- a value that is not a number -/
  | invalidNumber
  /-- an argument that may come once came again -/
  | repeatedArgument
  /-- a switch with a value -/
  | unexpectedValue
  | missingPath
deriving DecidableEq, Repr, Inhabited

/-- asking for help or for the version is no failure -/
def UsageError.exitCode : UsageError → Nat
  | .helpAsked => 0
  | .versionAsked => 0
  | _ => 2

inductive Switch where
  | help
  | version
  | verbose
  | showSuppressed
deriving DecidableEq, Repr, Inhabited

/-- what a value is for -/
inductive Slot where
  | path
  | config
  | format
  | rule
  | customMethods
  | callDepth
deriving DecidableEq, Repr, Inhabited

/-- an argument that is recognized by its name -/
inductive NamedArgument where
  | switch (s : Switch)
  | option (s : Slot)
deriving DecidableEq, Repr, Inhabited

structure ArgumentName where
  long : String
  short : Option Char
  argument : NamedArgument
deriving DecidableEq, Repr, Inhabited

/-- what is known at a level of the command line -/
structure Level where
  names : List ArgumentName
  takesPath : Bool
  hasCommands : Bool

namespace Level

def helpName : ArgumentName := ⟨"help", some 'h', .switch .help⟩

def verboseName : ArgumentName := ⟨"verbose", some 'v', .switch .verbose⟩

/-- before the name of a command -/
def top : Level :=
  ⟨[verboseName, helpName, ⟨"version", some 'V', .switch .version⟩], false, true⟩

def lint : Level :=
  ⟨[verboseName, helpName, ⟨"config", some 'c', .option .config⟩, ⟨"format", some 'f', .option .format⟩,
    ⟨"rule", some 'r', .option .rule⟩, ⟨"custom-assertion-methods", none, .option .customMethods⟩,
    ⟨"max-call-depth", none, .option .callDepth⟩, ⟨"show-suppressed", none, .switch .showSuppressed⟩], true, false⟩

def rules : Level :=
  ⟨[verboseName, helpName], false, false⟩

def long? (l : Level) (name : List Char) : Option NamedArgument :=
  (l.names.find? fun n => n.long.toList == name).map (·.argument)

def short? (l : Level) (c : Char) : Option NamedArgument :=
  (l.names.find? fun n => n.short == some c).map (·.argument)

end Level

/-- a number of 64 bits; a plus sign may stand before its digits -/
def readDepth? (value : String) : Option Nat :=
  Text.wordValue? 10 ((Text.dropLeading ['+'] value.toList).getD value.toList)

namespace Slot

/-- whether several values may be given -/
def isRepeatable (s : Slot) : Bool :=
  s == .rule

def examine (s : Slot) (value : String) : Except UsageError Unit :=
  match s with
  | path => if value.isEmpty then .error .missingValue else .ok ()
  | config => if value.isEmpty then .error .missingValue else .ok ()
  | callDepth => if (readDepth? value).isSome then .ok () else .error .invalidNumber
  | _ => .ok ()

end Slot

/-- the arguments of a level so far -/
structure Given where
  switches : List Switch
  /-- values that were examined, in order -/
  values : List (Slot × String)
  /-- what was begun last: its value, which may not have come yet, is not examined -/
  pending : Option (Slot × Option String)
deriving DecidableEq, Repr, Inhabited

namespace Given

def empty : Given := ⟨[], [], none⟩

def has (g : Given) (s : Slot) : Bool :=
  g.values.any (·.1 == s)

/-- the first value of a slot -/
def value? (g : Given) (s : Slot) : Option String :=
  g.values.lookup s

/-- all values of a slot -/
def valuesOf (g : Given) (s : Slot) : List String :=
  (g.values.filter (·.1 == s)).map (·.2)

/-- takes a value in; first it must be allowed to come at all, then it is examined -/
def add (g : Given) (s : Slot) (value : String) : Except UsageError Given := do
  if g.has s && !s.isRepeatable then .error .repeatedArgument
  s.examine value
  return { g with values := g.values ++ [(s, value)] }

/-- takes in what is pending -/
def settle (g : Given) : Except UsageError Given :=
  match g.pending with
  | none => .ok g
  | some (_, none) => .error .missingValue
  | some (s, some value) => { g with pending := none }.add s value

def useSwitch (g : Given) (s : Switch) : Except UsageError Given := do
  let g ← g.settle
  match s with
  | .help => .error .helpAsked
  | .version => .error .versionAsked
  | _ => if g.switches.contains s then .error .repeatedArgument else return { g with switches := g.switches ++ [s] }

/-- begins an option; a value attached to it is taken in at once -/
def useOption (g : Given) (s : Slot) (attached : Option String) : Except UsageError Given := do
  let g ← g.settle
  match attached with
  | some value => g.add s value
  | none => return { g with pending := some (s, none) }

/-- the option whose value comes next -/
def awaiting? (g : Given) : Option Slot :=
  match g.pending with
  | some (s, none) => some s
  | _ => none

/-- begins a path, unless there was one -/
def usePath (l : Level) (g : Given) (value : String) : Except UsageError Given := do
  let isTaken := g.has .path || g.pending.any (·.1 == .path)
  if !l.takesPath || isTaken then .error (if l.hasCommands then .unknownCommand else .unknownArgument)
  let g ← g.settle
  return { g with pending := some (.path, some value) }

/-- an argument with two leading dashes, which are left out -/
def useLong (l : Level) (g : Given) (text : List Char) : Except UsageError Given :=
  let (name, attached) : List Char × Option (List Char) :=
    match Text.splitFirst '=' text with
    | some (name, value) => (name, some value)
    | none => (text, none)
  match l.long? name with
  | none => .error .unknownArgument
  | some (.option s) => g.useOption s (attached.map String.ofList)
  | some (.switch s) => if attached.isSome then .error .unexpectedValue else g.useSwitch s

/-- short names after one dash; what follows the name of an option is its value -/
def useShorts (l : Level) : Given → List Char → Except UsageError Given
  | g, [] => .ok g
  | g, c :: rest =>
    match l.short? c with
    | none => .error .unknownArgument
    | some (.switch s) => do useShorts l (← g.useSwitch s) rest
    | some (.option s) =>
      g.useOption s (if rest.isEmpty then none else some (String.ofList ((Text.dropLeading ['='] rest).getD rest)))

end Given

inductive CommandName where
  | lint
  | rules
  | help
deriving DecidableEq, Repr, Inhabited

def CommandName.read? : String → Option CommandName
  | "lint" => some lint
  | "check" => some lint
  | "rules" => some rules
  | "help" => some help
  | _ => none

/-- the arguments of a level, up to its end or to the name of a command; after two dashes (`plain`) no argument is a
name. A command's name after them is an argument in the wrong place. -/
def Level.read (l : Level) : Bool → Given → List String →
    Except UsageError (Given × Option (CommandName × List String))
  | _, g, [] => do return (← g.settle, none)
  | true, g, arg :: rest =>
    if l.hasCommands && (CommandName.read? arg).isSome then .error .unknownArgument
    else do l.read true (← g.usePath l arg) rest
  | false, g, arg :: rest => do
    if l.hasCommands then
      if let some command := CommandName.read? arg then return (g, some (command, rest))
    match arg.toList with
    | ['-', '-'] => l.read true g rest
    | '-' :: '-' :: text => l.read false (← g.useLong l text) rest
    | '-' :: c :: text => l.read false (← g.useShorts l (c :: text)) rest
    | _ =>
      match g.awaiting? with
      | some s => l.read false { g with pending := some (s, some arg) } rest
      | none => l.read false (← g.usePath l arg) rest

end CallLint
