import Marginalia.Text.Blank
import Marginalia.Text.Case

/-!
# Paths of source files

* a path is a row of components; empty ones and single dots are dropped when it is read, double
  dots are kept;
* the suffix of a path starts at the last dot of its last component, unless that dot stands first
  or last;
* a source file is known by its suffix alone, in any case;
* a change to a source file matters unless a component of its path names a directory to ignore, or
  its last component is a name that editors use for their own files.
-/

namespace Marginalia

/-! ## 1. Paths -/

/-- A path: what stands before the first component (nothing, for a relative path), and its
    components. -/
structure Path where
  root : String
  parts : List String
deriving DecidableEq, Repr

/-- The pieces of a string between occurrences of a character. -/
def pieces (sep : Char) (s : String) : List String := (Text.splitAt sep s.toList).map String.ofList

namespace Path

/-- What stands before the first component. -/
def rootOf : List Char → String
  | '/' :: '/' :: '/' :: _ => "/"
  | '/' :: '/' :: _ => "//"
  | '/' :: _ => "/"
  | _ => ""

/-- Reads a path. -/
def ofString (s : String) : Path :=
  ⟨rootOf s.toList, (pieces '/' s).filter fun p => p != "" && p != "."⟩

/-- The written form of a path. -/
def text (p : Path) : String :=
  if p.parts.isEmpty then (if p.root = "" then "." else p.root)
  else p.root ++ String.intercalate "/" p.parts

/-- The last component. -/
def name (p : Path) : String := p.parts.getLast?.getD ""

/-- The suffix of a component. -/
def suffixOf (name : List Char) : List Char :=
  match name.reverse.dropWhile (· != '.') with
  | [] => []
  | [_] => []
  | _ :: _ :: _ =>
    let ending := (name.reverse.takeWhile (· != '.')).reverse
    if ending.isEmpty then [] else '.' :: ending

/-- The suffix of a path, in lower case. -/
def suffix (p : Path) : String := Text.lowercase (String.ofList (suffixOf p.name.toList))

/-- The path with more components. -/
def append (p : Path) (parts : List String) : Path := { p with parts := p.parts ++ parts }

end Path

/-! ## 2. Source files -/

/-- The suffixes of source files. -/
def sourceSuffixes : List String := [".inc", ".php", ".phtml"]

/-- Whether a path has the suffix of a source file. -/
def Path.isSource (p : Path) : Bool := sourceSuffixes.contains p.suffix

/-- The wording of the refusal of a file whose suffix is not that of a source file. -/
def unsupportedMessage (suffix : String) : String := "Unsupported file extension: " ++ suffix

/-! ## 3. Changes that matter -/

/-- The directories whose contents never matter. -/
def ignoredDirectories : List String :=
  ["__pycache__", ".git", ".hg", ".svn", ".tox", ".venv", ".idea", "node_modules", ".mypy_cache",
    ".pytest_cache", ".hypothesis"]

/-- The text without one line feed at its end. -/
def dropFinalNewline (name : List Char) : List Char :=
  match name.reverse with
  | '\n' :: rest => rest.reverse
  | _ => name

/-- Whether a name, read from its end, starts with what the tests ask for in turn. -/
def matchesBackwards : List (Char → Bool) → List Char → Bool
  | [], _ => true
  | _ :: _, [] => false
  | p :: ps, c :: cs => p c && matchesBackwards ps cs

/-- Whether a name ends as asked, possibly before a final line feed. -/
def endsIn (tests : List (Char → Bool)) (name : List Char) : Bool :=
  matchesBackwards tests.reverse name.reverse ||
    matchesBackwards tests.reverse (dropFinalNewline name).reverse

/-- The tests for the characters of a text. -/
def literally (s : String) : List (Char → Bool) := s.toList.map fun c d => d = c

/-- Any character but a line feed. -/
def anyChar (c : Char) : Bool := c != '\n'

/-- The names that editors and compilers give to their own files. -/
def isTemporaryName (name : List Char) : Bool :=
  endsIn (literally ".py" ++ [fun c => c = 'c' || c = 'o' || c = 'd']) name ||
    endsIn (literally ".___jb_" ++ [anyChar, anyChar, anyChar] ++ literally "___") name ||
    endsIn (literally ".sw" ++ [anyChar]) name ||
    endsIn (literally "~") name ||
    ".#".toList.isPrefixOf name ||
    dropFinalNewline name == ".DS_Store".toList ||
    "flycheck_".toList.isPrefixOf name

/-- Whether a change of a path matters, given more directories to ignore. -/
def changeMatters (exclude : List String) (path : String) : Bool :=
  let parts := Text.splitAt '/' (path.toList.dropWhile (· = '/'))
  (Path.ofString path).isSource &&
    !parts.any (fun p => (ignoredDirectories ++ exclude).contains (String.ofList p)) &&
    !isTemporaryName (parts.getLast?.getD [])

end Marginalia
