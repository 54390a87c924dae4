import Marginalia.Console.Arguments
import Marginalia.Console.Summary
import Marginalia.Document
import Marginalia.Settings

/-!
# The command line

There are two commands: one scans files and prints a report, the other watches a directory and
prints a summary after every change.

* what stands before the command is about all commands; the log level is one of a few names, and it
  is looked at once the command is known but before the command's own words are;
* asking for help ends the program with success, a usage error with status 2, and of the two the
  usage error is found first, unless it is about a value or a missing argument;
* a scan that finds nothing to read ends with status 1, and a strict one that has to warn with
  status 2, its output notwithstanding.

A run is a function of the files, the environment and the words (`run`); of the batches of changes
too, if it watches.
-/

namespace Marginalia.Console

/-! ## 1. Commands -/

/-- How a report is printed. -/
inductive Format where
  | json
  | table
deriving DecidableEq, Repr

/-- The format of a name. -/
def Format.ofName? (name : String) : Option Format :=
  if name = "json" then some .json else if name = "table" then some .table else none

/-- A command with what it was given; excluded directories are given or left to the environment,
    and changes are given so many milliseconds to settle. -/
inductive Command where
  | scan (paths : List String) (format : Format) (exclude : Option (List String)) (strict : Bool)
  | watch (directory : String) (exclude : Option (List String)) (debounce : Int)
deriving DecidableEq, Repr

/-- Why there is no command to run. -/
inductive Refusal where
  /-- Help was asked for. -/
  | help
  /-- The words make no command. -/
  | usage
deriving DecidableEq, Repr

/-- The status that a refusal ends with. -/
def Refusal.exitCode : Refusal → Nat
  | .help => 0
  | .usage => 2

/-! ## 2. The words of a command -/

/-- The options there are. -/
inductive Label where
  | help
  | logLevel
  | format
  | exclude
  | strict
  | lenient
  | debounce
deriving DecidableEq, Repr

/-- The option that asks for help. -/
def helpFlag : Flag Label := ⟨.help, ["help"], ['h'], false⟩

/-- The option that excludes a directory. -/
def excludeFlag : Flag Label := ⟨.exclude, ["exclude"], [], true⟩

/-- The options before the command. -/
def generalFlags : List (Flag Label) := [helpFlag, ⟨.logLevel, ["log-level"], [], true⟩]

/-- The options of the command that scans. -/
def scanFlags : List (Flag Label) :=
  [helpFlag, excludeFlag, ⟨.format, ["format"], ['f'], true⟩, ⟨.strict, ["strict"], [], false⟩,
    ⟨.lenient, ["no-strict"], [], false⟩]

/-- The options of the command that watches. -/
def watchFlags : List (Flag Label) := [helpFlag, excludeFlag, ⟨.debounce, ["debounce"], [], true⟩]

/-- The excluded directories that are given, if any are. -/
def excludeGiven (a : Arguments Label) : Option (List String) :=
  match a.values .exclude with
  | [] => none
  | names => some names

/-- Whether warnings are to count as failures: the last word on it decides. -/
def isStrict (a : Arguments Label) : Bool :=
  match (a.options.filter fun o => o.1 = .strict || o.1 = .lenient).getLast? with
  | some o => o.1 = .strict
  | none => false

/-- The command that scans. -/
def scanCommand (a : Arguments Label) : Except Refusal Command :=
  match Format.ofName? ((a.last? .format).getD "json"), a.arguments with
  | none, _ => .error .usage
  | some _, [] => .error .usage
  | some format, paths => .ok (.scan paths format (excludeGiven a) (isStrict a))

/-- The command that watches. -/
def watchCommand (a : Arguments Label) : Except Refusal Command :=
  match Number.wholeOfText ((a.last? .debounce).getD "400"), a.arguments with
  | .ok debounce, [] => .ok (.watch "." (excludeGiven a) debounce)
  | .ok debounce, [directory] => .ok (.watch directory (excludeGiven a) debounce)
  | _, _ => .error .usage

/-- Reads the words of a command. -/
def readCommand (flags : List (Flag Label)) (make : Arguments Label → Except Refusal Command)
    (words : List String) : Except Refusal Command :=
  match readArguments? flags true words with
  | none => .error .usage
  | some a => if a.has .help then .error .help else make a

/-- The reader of a command's words. -/
def commandReader? (name : String) : Option (List String → Except Refusal Command) :=
  if name = "scan" then some (readCommand scanFlags scanCommand)
  else if name = "watch" then some (readCommand watchFlags watchCommand)
  else none

/-! ## 3. The whole command line -/

/-- The log levels there are. -/
def logLevels : List String :=
  ["CRITICAL", "FATAL", "ERROR", "WARN", "WARNING", "INFO", "DEBUG", "NOTSET"]

/-- The log level that is asked for. -/
def levelOf (env : Environment) (a : Arguments Label) : String :=
  match a.last? .logLevel with
  | some level => if level = "" then env.logLevel else Text.uppercase level
  | none => env.logLevel

/-- What a command line comes to. -/
inductive Invocation where
  | refused (r : Refusal)
  | unknownLevel (level : String)
  | command (c : Command)
deriving DecidableEq, Repr

/-- Reads a command line. -/
def readLine (env : Environment) (words : List String) : Invocation :=
  match readArguments? generalFlags false words with
  | none => .refused .usage
  | some a =>
    if a.has .help then .refused .help
    else match a.arguments with
      | [] => .refused .usage
      | name :: rest => match commandReader? name with
        | none => .refused .usage
        | some read =>
          if logLevels.contains (levelOf env a) then
            match read rest with
            | .error r => .refused r
            | .ok c => .command c
          else .unknownLevel (levelOf env a)

/-! ## 4. Running -/

/-- What is printed. -/
inductive Output where
  | nothing
  | message (text : String)
  | document (text : String)
  | rows (rows : List Row)

/-- What a run cannot recover from. -/
inductive Breakdown where
  /-- There is no such log level. -/
  | unknownLevel (level : String)
  /-- The report cannot be said in JSON. -/
  | unprintable
  /-- The markup of something to be shown is faulty. -/
  | faultyMarkup (f : MarkupFault)
  /-- A scan failed where that is not provided for. -/
  | scan (f : ScanFault)

/-- How a run ends. -/
inductive Outcome where
  | exit (code : Nat) (output : Output)
  | breakdown (b : Breakdown)

/-- Ends with a message about a failure. -/
def failWith (text : String) : Outcome :=
  match shownLines ("[red]" ++ text ++ "[/red]") with
  | .ok lines => .exit 1 (.message (String.intercalate "\n" lines))
  | .error f => .breakdown (.faultyMarkup f)

/-- Ends with what is printed of a report. -/
def printReport (format : Format) (code : Nat) (r : Report) : Outcome :=
  match format with
  | .json => match r.document? with
    | some d => .exit code (.document d.print)
    | none => .breakdown .unprintable
  | .table => match shownRows (summary r) with
    | .ok rows => .exit code (.rows rows)
    | .error f => .breakdown (.faultyMarkup f)

/-- Scans and prints. -/
def runScan (files : Workspace) (paths : List String) (format : Format) (exclude : List String)
    (strict : Bool) : Outcome :=
  match files.scan exclude paths with
  | .error (.unreadable f) => failWith f.message
  | .error f => .breakdown (.scan f)
  | .ok r =>
    if r.files.isEmpty then failWith "No PHP files found."
    else printReport format (if strict && 0 < r.warnings then 2 else 0) r

/-- Watches and prints. -/
def runWatch (files : Workspace) (batches : List Batch) (directory : String)
    (exclude : List String) : Outcome :=
  let path := Path.ofString directory
  if files.isDirectory path then
    let session : Session := ⟨.idle path exclude, files⟩
    let (made, fault) := session.calls batches [.rescan, .start, .wait, .stop]
    match shownRows (made.flatMap fun c => c.2.flatMap eventRows), fault with
    | .error f, _ => .breakdown (.faultyMarkup f)
    | .ok _, some f => .breakdown (.scan f)
    | .ok rows, none => .exit 0 (.rows rows)
  else failWith ("Not a directory: " ++ directory)

/-- Runs a command. -/
def Command.run (files : Workspace) (env : Environment) (batches : List Batch) : Command → Outcome
  | .scan paths format exclude strict =>
    runScan files paths format (exclude.getD env.exclude) strict
  | .watch directory exclude _ => runWatch files batches directory (exclude.getD env.exclude)

/-- Runs a command line. -/
def run (files : Workspace) (env : Environment) (batches : List Batch) (words : List String) :
    Outcome :=
  match readLine env words with
  | .refused r => .exit r.exitCode .nothing
  | .unknownLevel level => .breakdown (.unknownLevel level)
  | .command c => c.run files env batches

end Marginalia.Console
