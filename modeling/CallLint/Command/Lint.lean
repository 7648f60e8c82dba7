/-
The command that scans. Its exit status is `failed` when the format is unknown, the configuration cannot be read or is
refused, or the path leads nowhere; it is `findings` when a finding stays active, and `clean` otherwise.
-/
import CallLint.Command.Outcome
import CallLint.Config.Reader
import CallLint.Report.Plain
import CallLint.Report.Pretty
import CallLint.Report.Sarif
import CallLint.Scan.Batch
import CallLint.Scan.Selection

namespace CallLint

structure LintOptions where
  path : String
  /-- a configuration file to use instead of the one in the current folder -/
  config : Option String
  format : String
  overrides : Overrides
  showSuppressed : Bool
deriving DecidableEq, Repr, Inhabited

inductive ReportFormat where
  | pretty
  | json
  | sarif
deriving DecidableEq, Repr, Inhabited

namespace ReportFormat

def read? : String → Option ReportFormat
  | "pretty" => some pretty
  | "json" => some json
  | "sarif" => some sarif
  | _ => none

end ReportFormat

/-- why a scan does not start -/
inductive LintError where
  | unknownFormat (format : String)
  | unreadConfig (error : ConfigError)
  | refusedConfig (error : ConfigError)
  | unreachable (path : String) (error : FileError)
deriving DecidableEq, Repr

def LintError.message : LintError → String
  | unknownFormat format =>
    "Error: invalid format " ++ Text.quoted format ++ ", must be 'pretty', 'json', or 'sarif'"
  | unreadConfig error => "Error: " ++ error.report
  | refusedConfig error => "Error: invalid config: " ++ error.message
  | unreachable path error => "Error: cannot access path " ++ Text.quotedPath path ++ ": " ++ error.message

namespace Lint

def failure (error : LintError) (log : List LogLine) : CommandOutcome :=
  ⟨.failed, "", error.message ++ "\n", log⟩

/-- the configuration file to read, if there is one -/
def configFile? (w : Workspace) (o : LintOptions) : Option String :=
  o.config <|> Config.discover w "."

def loadConfig (w : Workspace) : Option String → Except ConfigError Config
  | some file => Config.load w file
  | none => .ok .standard

def configLine : Option String → LogLine
  | some file => .debug ("loaded config from " ++ file)
  | none => .debug "no config file found, using defaults"

def report (format : ReportFormat) (color : Bool) (file : Option String) (o : LintOptions) (r : ScanResult) : String :=
  match format with
  | .pretty => PrettyReport.render ⟨o.path, file, r, o.showSuppressed, color⟩
  | .json => (PlainReport.ofResult o.path r).render
  | .sarif => (Sarif.Log.ofResult r).render

/-- scans what was selected; the log starts with what was logged before -/
def scan [Recovery] (w : Workspace) (plan : ScanPlan) (selection : Selection) (log : List LogLine)
    (render : ScanResult → String) : Except Fault CommandOutcome := do
  if selection.paths.isEmpty then return ⟨.clean, "", "Warning: no files to scan\n", log⟩
  let scanned ← Scan.run w (plan.rules.map (Rule.build plan.settings)) selection.base selection.paths
  let buildLog := plan.rules.flatMap (Rule.buildLog plan.settings)
  let startLine := LogLine.debug ("running " ++ ", ".intercalate (plan.rules.map (·.key)) ++ " on " ++
    toString selection.paths.length ++ " files")
  return ⟨if scanned.result.isClean then .clean else .findings, render scanned.result, "",
    log ++ buildLog ++ [startLine] ++ scanned.log⟩

def run [Recovery] (w : Workspace) (color : Bool) (o : LintOptions) : Except Fault CommandOutcome :=
  match ReportFormat.read? o.format with
  | none => .ok (failure (.unknownFormat o.format) [])
  | some format =>
    let file := configFile? w o
    match loadConfig w file with
    | .error e => .ok (failure (.unreadConfig e) [])
    | .ok config =>
      match (config.override o.overrides).plan with
      | .error e => .ok (failure (.refusedConfig e) [configLine file])
      | .ok plan =>
        match Selection.ofPath w plan.exclusions o.path.toList with
        | .error e => .ok (failure (.unreachable o.path e) [configLine file])
        | .ok selection => scan w plan selection (configLine file :: selection.log) (report format color file o)

end Lint

end CallLint
