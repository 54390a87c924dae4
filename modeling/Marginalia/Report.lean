import Marginalia.DocComment
import Marginalia.Expansion
import Marginalia.Php.Outline
import Marginalia.Php.Source
import Marginalia.Sources

/-!
# Reports

A file is scanned on its own: its comments are routed, one after another, into a registry
(`FileScan.ofSource`). A report puts the scans of several files together:

* the definitions of all files are pooled, and the last definition of an id counts (`pool`);
* then the files are gone through again: what was filed is expanded with the pooled definitions and
  only after that validated, so what a definition supplies counts (`finish`);
* the log holds what pooling has to say, then file by file what was noticed while scanning,
  expanding and validating it.

Lists that annotations have in common with definitions are shown as they are at the end.
-/

namespace Marginalia

/-! ## 1. One file -/

/-- What was found in a file. -/
structure FileScan where
  path : String
  registry : Registry
  log : Log

/-- Files what a comment says. -/
def routeComment (state : Registry × Log) (c : Php.Attachment) : Registry × Log :=
  let routed := state.1.route c.location c.comment c.target (DocComment.parse c.comment c.aliases)
  (routed.registry, state.2 ++ routed.log)

/-- Scans a source. -/
def FileScan.ofSource (path : String) (bytes : List UInt8) : FileScan :=
  let (registry, log) :=
    (Php.attachments path (Php.tokenize bytes)).foldl routeComment (.empty, [])
  ⟨path, registry, log⟩

/-- Scans a file. -/
def Workspace.scanFile (w : Workspace) (path : String) : Except ReadFault FileScan :=
  (w.read path).map (FileScan.ofSource path)

/-- Scans files, one after another. -/
def Workspace.scanFiles (w : Workspace) : List String → Except ReadFault (List FileScan)
  | [] => .ok []
  | path :: more => match w.scanFile path with
    | .error e => .error e
    | .ok s => match w.scanFiles more with
      | .error e => .error e
      | .ok rest => .ok (s :: rest)

/-! ## 2. Pooling definitions -/

/-- Pools definitions of a file with those of the files before it. -/
def poolFrom (path : String) : Definitions → List (String × Note) → Definitions × Log
  | defs, [] => (defs, [])
  | defs, (id, a) :: more =>
    let (pooled, log) := poolFrom path (defs.put id a) more
    (pooled, (if defs.has id then notice (notUniqueMessage id) path else []) ++ log)

/-- Pools the definitions of files. -/
def pool : Definitions → List FileScan → Definitions × Log
  | defs, [] => (defs, [])
  | defs, s :: more =>
    let (pooled, log) := poolFrom s.path defs s.registry.definitions
    let (all, rest) := pool pooled more
    (all, log ++ rest)

/-! ## 3. Expansion and validation -/

/-- Expands annotations one after another. -/
def expandAll (location : String) :
    Definitions → List Note → Except Unexpandable (Expanded (List Note))
  | defs, [] => .ok ⟨[], defs, []⟩
  | defs, a :: more => match expand location defs a with
    | .error e => .error e
    | .ok x => match expandAll location x.definitions more with
      | .error e => .error e
      | .ok y => .ok ⟨x.result :: y.result, y.definitions, x.log ++ y.log⟩

/-- What a report shows of the annotations of a file. -/
structure Section where
  resources : List Note
  models : List Note

/-- Expands and validates what was filed for one file. -/
def FileScan.finish (s : FileScan) (defs : Definitions) : Except Unexpandable (Expanded Section) :=
  match expandAll s.path defs s.registry.resources with
  | .error e => .error e
  | .ok x => match expandAll s.path x.definitions s.registry.models with
    | .error e => .error e
    | .ok y =>
      let expanded := { s.registry with resources := x.result, models := y.result }
      let (resources, r, resourceLog) := expanded.readResources s.path
      let (models, _, modelLog) := r.readModels s.path
      .ok ⟨⟨resources, models⟩, y.definitions,
        s.log ++ x.log ++ y.log ++ resourceLog ++ modelLog⟩

/-- Expands and validates what was filed for files, one after another. -/
def finishAll : Definitions → List FileScan → Except Unexpandable (Expanded Section)
  | defs, [] => .ok ⟨⟨[], []⟩, defs, []⟩
  | defs, s :: more => match s.finish defs with
    | .error e => .error e
    | .ok x => match finishAll x.definitions more with
      | .error e => .error e
      | .ok y => .ok
          ⟨⟨x.result.resources ++ y.result.resources, x.result.models ++ y.result.models⟩,
            y.definitions, x.log ++ y.log⟩

/-! ## 4. The report -/

/-- What a scan found. -/
structure Report where
  files : List String
  resources : List Note
  models : List Note
  definitions : Definitions
  log : Log

namespace Report

/-- The report on files that have been scanned. -/
def ofScans (scans : List FileScan) : Except Unexpandable Report :=
  let (pooled, poolLog) := pool [] scans
  (finishAll pooled scans).map fun x =>
    { files := scans.map (·.path)
      resources := x.result.resources.map (·.settled x.definitions)
      models := x.result.models.map (·.settled x.definitions)
      definitions := x.definitions
      log := poolLog ++ x.log }

/-- How many warnings there are. -/
def warnings (r : Report) : Nat := r.log.countP (·.isWarning)

/-- How many notices there are. -/
def notices (r : Report) : Nat := r.log.length - r.warnings

end Report

/-- Why there is no report. -/
inductive ScanFault where
  | unreadable (f : ReadFault)
  | unexpandable (e : Unexpandable)
deriving DecidableEq, Repr

/-- The wording of a fault. -/
def ScanFault.message : ScanFault → String
  | .unreadable f => f.message
  | .unexpandable e => e.message

/-- Scans the files that paths stand for. -/
def Workspace.scan (w : Workspace) (exclude paths : List String) : Except ScanFault Report :=
  match w.collect exclude paths with
  | .error f => .error (.unreadable f)
  | .ok files => match w.scanFiles (files.map (·.text)) with
    | .error f => .error (.unreadable f)
    | .ok scans => match Report.ofScans scans with
      | .error e => .error (.unexpandable e)
      | .ok r => .ok r

end Marginalia
