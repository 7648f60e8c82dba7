/-
The command line program. It reads the files that a command looks at into a tree, runs the command on it and prints
what comes out.
-/
import CallLint.Command.Basic
import CallLint.Command.Usage

namespace CallLint.Program

/-- an entry of a folder; what no scan looks into is left empty -/
partial def readEntry (entry : IO.FS.DirEntry) : IO (String × FileTree) := do
  let name := entry.fileName
  if ← entry.path.isDir then
    if Selection.isSkippedFolder name then return (name, .folder [])
    return (name, .folder (← (← entry.path.readDir).toList.mapM readEntry))
  else if Selection.isSourceName name then return (name, .file (← IO.FS.readBinFile entry.path).toList)
  else return (name, .file [])

/-- what is at a path, with its place; `deep` says whether the entries of a folder are wanted -/
def readTree (path : String) (deep : Bool) : IO (Option (List String × FileTree)) := do
  let some real ← (try some <$> IO.FS.realPath path catch _ => pure none) | return none
  let place := (Text.splitString '/' real.toString).filter (· != "")
  if ← real.isDir then
    let entries ← if deep then (← real.readDir).toList.mapM readEntry else pure []
    return some (place, .folder entries)
  else if ← real.pathExists then return some (place, .file (← IO.FS.readBinFile real).toList)
  else return none

/-- a workspace with what is at a path added to it, and the folders on the way -/
def addPath (w : Workspace) (path : String) (deep : Bool) : IO Workspace := do
  let segments := Text.splitAt '/' path.toList
  let folders := (List.range segments.length).map fun n => String.ofList (Text.joinWith '/' (segments.take n))
  let mut root := w.root
  for folder in folders do
    if let some (place, tree) ← readTree (if folder.isEmpty then "/" else folder) false then
      if (root.at? place).isNone then root := root.put place tree
  if let some (place, tree) ← readTree path deep then
    if deep || !tree.isFolder || (root.at? place).isNone then root := root.put place tree
  return { w with root := root }

/-- the files that a command looks at -/
def workspaceFor (command : Command) : IO Workspace := do
  let some (current, _) ← readTree "." false | return ⟨.folder [], []⟩
  let empty : Workspace := ⟨(FileTree.folder []).put current (.folder []), current⟩
  match command with
  | .rules => return empty
  | .lint options =>
    let w ← addPath empty options.path true
    (options.config.toList ++ Config.fileNames).foldlM (fun w file => addPath w file false) w

end CallLint.Program

/-- reads arguments, runs the command and gives its exit code -/
def main (args : List String) : IO UInt32 := do
  match CallLint.Invocation.read args with
  | .error e =>
    if e.exitCode = 0 then IO.println e.message else IO.eprintln e.message
    return e.exitCode.toUInt32
  | .ok invocation =>
    let color := (← (← IO.getStdout).isTty) && (← IO.getEnv "NO_COLOR").isNone
    match invocation.command.run (← CallLint.Program.workspaceFor invocation.command) color with
    | .error fault =>
      IO.eprintln fault.message
      return 101
    | .ok outcome =>
      for l in outcome.log do
        if invocation.verbose || l.level = .warn then IO.eprintln l.render
      IO.eprint outcome.errors
      IO.print outcome.output
      return outcome.status.code.toUInt32
