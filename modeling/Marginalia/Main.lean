import Marginalia.Console.Command

/-!
# The program

Loads the files that the command line speaks of, runs it, and prints what comes out. To watch a
directory, its files are loaded again and again, and those that differ make a batch of changes.
-/

namespace Marginalia.Program

open Marginalia.Console

/-- The variables of the environment that are looked at. -/
def readEnvironment : IO Environment := do
  let given ← ["SWAGGER_SCAN_LOG_LEVEL", "SWAGGER_SCAN_EXCLUDE"].mapM fun name =>
    return (name, ← IO.getEnv name)
  return given.filterMap fun e => e.2.map fun value => (e.1, value)

/-- The text of an address. -/
def addressText (a : Address) : String := "/" ++ String.intercalate "/" a

/-- Loads what stands at an address, with everything below a directory. Of files only sources are
    read, and directories behind links are not entered. -/
partial def load (files : Workspace) (a : Address) (entered : Bool) : IO Workspace := do
  let path := (← IO.currentDir) / addressText a
  if ← path.isDir then
    let kind := (← path.symlinkMetadata).type
    let files := if a.isEmpty then files else { files with tree := files.tree.write a .directory }
    if entered || kind == .dir then
      (← path.readDir).foldlM (fun files e => load files (a ++ [e.fileName]) false) files
    else return files
  else if ← path.pathExists then
    let isSource := (Path.mk "" a).isSource
    let bytes ← if isSource then IO.FS.readBinFile path else pure .empty
    return { files with tree := files.tree.write a (.file bytes.toList) }
  else return files

/-- The workspace with nothing loaded. -/
def bareWorkspace : IO Workspace := do
  let here := (Path.ofString (toString (← IO.currentDir))).parts
  return ⟨FileTree.empty.write here .directory, here⟩

/-- Loads what paths lead to. -/
def loadPaths (paths : List String) : IO Workspace := do
  let bare ← bareWorkspace
  paths.foldlM (fun files raw => load files (bare.addressOf (Path.ofString raw)) true) bare

/-- The paths that a command speaks of. -/
def pathsOf : Command → List String
  | .scan paths _ _ _ => paths
  | .watch directory _ _ => [directory]

/-- Prints rows. -/
def printRows (rows : List Row) : IO Unit := do
  rows.forM fun row => IO.println (String.intercalate " | " row)
  (← IO.getStdout).flush

/-- What is said about the use of the program. -/
def usageText : String :=
  "Usage: marginalia [--log-level LEVEL] scan PATHS... [--format json|table] [--exclude NAME] " ++
    "[--strict]\n       marginalia [--log-level LEVEL] watch [DIRECTORY] [--exclude NAME] " ++
    "[--debounce MILLISECONDS]"

/-- What is said about a breakdown. -/
def breakdownText : Breakdown → String
  | .unknownLevel level => "Unknown level: " ++ Text.quoted level
  | .unprintable => "The report holds a value that cannot be printed."
  | .faultyMarkup .unmatched => "A closing tag does not match any open tag."
  | .faultyMarkup .badArguments => "The arguments of an action are no literal."
  | .faultyMarkup .badNumber => "A part of a colour is no number."
  | .scan f => f.message

/-- Prints the outcome of a run. -/
def printOutcome : Outcome → IO UInt32
  | .exit code output => do
    match output with
    | .nothing => if code = 0 then IO.println usageText else IO.eprintln usageText
    | .message text => IO.eprintln text
    | .document text => IO.print text
    | .rows rows => printRows rows
    return code.toUInt32
  | .breakdown b => do
    IO.eprintln (breakdownText b)
    return 1

/-- The paths of the files in which two trees differ, as seen from a directory. -/
def differences (directory : Path) (a : Address) (old new : FileTree) : List String :=
  let addresses := (old.filesBelow a ++ new.filesBelow a).eraseDups
  (addresses.filter fun names => old.at? (a ++ names) != new.at? (a ++ names)).map
    fun names => (directory.append names).text

/-- Watches on, after the files have been seen as they were, and looks again every so many
    milliseconds. -/
partial def watchOn (w : Watcher) (debounce : UInt32) (files : Workspace) : IO UInt32 := do
  IO.sleep debounce
  let now ← loadPaths [w.directory.text]
  let changes := differences w.directory (files.addressOf w.directory) files.tree now.tree
  let (events, task) := w.take now ⟨[], [], changes⟩
  match shownRows (events.flatMap eventRows), task with
  | .error f, _ => printOutcome (.breakdown (.faultyMarkup f))
  | .ok rows, .broken e =>
    printRows rows
    printOutcome (.breakdown (.scan (.unexpandable e)))
  | .ok rows, _ =>
    printRows rows
    watchOn w debounce now

end Marginalia.Program

section

open Marginalia Marginalia.Console Marginalia.Program

/-- Runs a command line. -/
def main (words : List String) : IO UInt32 := do
  let env ← readEnvironment
  match readLine env words with
  | .command c =>
    let files ← loadPaths (pathsOf c)
    let code ← printOutcome (c.run files env [])
    match c with
    | .watch directory exclude debounce =>
      let watcher := Watcher.idle (Path.ofString directory) (exclude.getD env.exclude)
      if code = 0 then watchOn watcher debounce.toNat.toUInt32 files else return code
    | _ => return code
  | _ => printOutcome (run .empty env [] words)

end
