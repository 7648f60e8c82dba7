/-
Configuration files. Every field may be missing; a field of another name, or one that comes twice, makes the file
malformed.
-/
import CallLint.Config.Basic
import CallLint.Yaml.Value

namespace CallLint.Config

/-- names under which a configuration is looked for, the first one first -/
def fileNames : List String :=
  ["callmatch.yaml", ".callmatch.yaml"]

/-- the value of a field, or a default when the field is missing -/
def readField {α : Type} (fields : List (String × Yaml.Node)) (name : String) (read : Yaml.Node → Option α)
    (default : α) : Option α :=
  match fields.lookup name with
  | some node => read node
  | none => some default

def settingsOf? (d : Yaml.Document) (node : Yaml.Node) : Option RuleSettings := do
  let fields ← d.fields? ["custom_methods", "max_call_depth"] node
  return ⟨← readField fields "custom_methods" d.text? RuleSettings.standard.customMethods,
    ← readField fields "max_call_depth" d.number? RuleSettings.standard.callDepth⟩

def ofDocument? (d : Yaml.Document) : Option Config := do
  let fields ← d.fields? ["rules", "excluded_paths", "assertions"] d.root
  return ⟨← readField fields "rules" d.texts? [], ← readField fields "excluded_paths" d.texts? [],
    ← readField fields "assertions" (settingsOf? d) .standard⟩

/-- the configuration that a text holds -/
def ofText? (text : String) : Option Config :=
  (Yaml.Document.ofText? text).bind ofDocument?

/-- the configuration in the file at a path -/
def load (w : Workspace) (path : String) : Except ConfigError Config := do
  let text ← (w.readText path.toList).mapError (.unreadable path)
  match ofText? text with
  | some c => return c
  | none => .error (.malformed path)

/-- path of the configuration file in a folder -/
def discover (w : Workspace) (folder : String) : Option String :=
  (fileNames.map fun name => String.ofList (Path.join folder.toList name.toList)).find? fun path => w.isFile path.toList

end CallLint.Config
