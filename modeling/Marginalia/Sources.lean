import Marginalia.FileTree
import Marginalia.Text.Printable

/-!
# The files of a scan

* a path that names a file stands for that file, whatever it is called;
* a path that names a directory stands for the source files below it, in the order of the tree,
  without those that lie in an excluded directory. Only the directories between the named one and
  the file count, not those above and not the file's own name (`isExcluded`);
* the first path that leads nowhere ends the collection.

A file is read by its suffix: one that is no source file is refused before anybody looks for it.
-/

namespace Marginalia

/-! ## 1. What can go wrong -/

/-- Why a path cannot be scanned. -/
inductive ReadFault where
  /-- The path leads nowhere. -/
  | notFound (path : String)
  /-- The file is not a source file. -/
  | unsupported (suffix : String)
  /-- The path leads to a directory where a file is wanted. -/
  | isDirectory (path : String)
  /-- The path goes through something that is no directory. -/
  | notDirectory (path : String)
deriving DecidableEq, Repr

/-- The wording of a fault. -/
def ReadFault.message : ReadFault → String
  | .notFound path => "File not found: " ++ path
  | .unsupported suffix => unsupportedMessage suffix
  | .isDirectory path => "[Errno 21] Is a directory: " ++ Text.quoted path
  | .notDirectory path => "[Errno 20] Not a directory: " ++ Text.quoted path

/-! ## 2. Collecting files -/

/-- Whether a file lies in an excluded directory, going by the names that lead to it. -/
def isExcluded (exclude : List String) (names : Address) : Bool :=
  names.dropLast.any exclude.contains

/-- The source files that a directory stands for, by the names that lead to them from there. -/
def Workspace.sourcesBelow (w : Workspace) (exclude : List String) (a : Address) : List Address :=
  (w.tree.filesBelow a).filter fun names =>
    (Path.mk "" names).isSource && !isExcluded exclude names

/-- The files that a path stands for. -/
def Workspace.sourcesAt (w : Workspace) (exclude : List String) (raw : String) :
    Except ReadFault (List Path) :=
  let path := Path.ofString raw
  match w.find? path with
  | none => .error (.notFound raw)
  | some (_, .file _) => .ok [path]
  | some (a, .directory) => .ok ((w.sourcesBelow exclude a).map path.append)

/-- The files that paths stand for, in the order of the paths. -/
def Workspace.collect (w : Workspace) (exclude : List String) :
    List String → Except ReadFault (List Path)
  | [] => .ok []
  | raw :: more => match w.sourcesAt exclude raw with
    | .error e => .error e
    | .ok found => match w.collect exclude more with
      | .error e => .error e
      | .ok rest => .ok (found ++ rest)

/-! ## 3. Reading a file -/

/-- The contents of a source file. -/
def Workspace.read (w : Workspace) (raw : String) : Except ReadFault (List UInt8) :=
  let path := Path.ofString raw
  if path.isSource then
    match w.locate path with
    | .error .absent => .error (.notFound raw)
    | .error .notDirectory => .error (.notDirectory path.text)
    | .ok a => match w.tree.at? a with
      | some (.file bytes) => .ok bytes
      | some .directory => .error (.isDirectory path.text)
      | none => .error (.notFound raw)
  else .error (.unsupported path.suffix)

end Marginalia
