import Marginalia.Text.Case
import Marginalia.Text.Printable

/-!
# Qualified names and imports

A qualified name is a row of segments with backslashes between them. A file gives short names to
qualified ones by importing them; aliases are compared in lower case.

* `Imports`: the aliases of a file in the order in which they were first imported;
* `resolveNote?`: what an annotation's name means, or nothing if its head is not imported;
* `resolveReference`: what the name of a class means, which always is something;
* `Scope`: the names in force at a point of a file. Annotations see only the built-in alias and
  the imports that lead into the annotation vendor's namespace, so that no other import can hide
  them.
-/

namespace Marginalia

/-! ## 1. Names -/

/-- The character between the segments of a qualified name. -/
def separator : Char := '\\'

/-- The namespace of the annotations. -/
def annotationNamespace : String := "Swagger\\Annotations"

/-- The alias under which the annotation namespace is known in every file. -/
def builtinAlias : String := "swg"

/-- The head of a name, and the rest after the first separator if there is one. -/
def splitHead (name : String) : String × Option String :=
  let cs := name.toList
  match cs.dropWhile (· != separator) with
  | [] => (name, none)
  | _ :: rest => (String.ofList (cs.takeWhile (· != separator)), some (String.ofList rest))

/-- A name with the separators at its left end removed. -/
def dropSeparators (name : String) : String :=
  String.ofList (name.toList.dropWhile (· = separator))

/-- The last segment of a name. -/
def basename (name : String) : String :=
  String.ofList (name.toList.reverse.takeWhile (· != separator)).reverse

/-- Two names joined. -/
def joinNames (left right : String) : String := left ++ "\\" ++ right

/-- A name with its head replaced by what the head stands for. -/
def substituteHead (target : String) : Option String → String
  | some rest => joinNames target rest
  | none => target

/-- A fully qualified name without its leading separator. -/
def fullyQualified? (name : String) : Option String :=
  match name.toList with
  | '\\' :: rest => some (String.ofList rest)
  | _ => none

/-! ## 2. Imports -/

/-- Aliases with what they stand for. -/
abbrev Aliases := List (String × String)

/-- Enters what an alias stands for. An alias that is there already keeps its place. -/
def Aliases.put (aliases : Aliases) (short target : String) : Aliases :=
  if aliases.any (·.1 == short) then
    aliases.map fun e => if e.1 == short then (short, target) else e
  else aliases ++ [(short, target)]

/-- The aliases that pairs give one after another, each once. -/
def Aliases.ofPairs (pairs : List (String × String)) : Aliases :=
  pairs.foldl (fun aliases e => Aliases.put aliases e.1 e.2) []

/-- What an alias stands for; the last entry counts. -/
def Aliases.find? (aliases : Aliases) (short : String) : Option String :=
  aliases.reverse.lookup short

/-- What an alias stands for, the aliases compared in lower case. -/
def Aliases.findLower? (aliases : Aliases) (short : String) : Option String :=
  Aliases.find? (aliases.map fun e => (Text.lowercase e.1, e.2)) (Text.lowercase short)

/-- The imports of a file: each alias once, in lower case. -/
structure Imports where
  entries : Aliases

namespace Imports

/-- No imports. -/
def empty : Imports := ⟨[]⟩

/-- Imports a name under an alias. An alias imported before keeps its place. -/
def add (table : Imports) (short target : String) : Imports :=
  ⟨Aliases.put table.entries (Text.lowercase short) (dropSeparators target)⟩

/-- Imports names one after another. -/
def ofAliases (aliases : Aliases) : Imports := aliases.foldl (fun t e => t.add e.1 e.2) empty

/-- What annotations see at the start of a file. -/
def builtin : Imports := empty.add builtinAlias annotationNamespace

/-- What an alias stands for. -/
def get? (table : Imports) (short : String) : Option String :=
  table.entries.lookup (Text.lowercase short)

/-- The text that shows the table. -/
def text (table : Imports) : String :=
  "ImportTable(\x7b" ++
    String.intercalate ", "
      (table.entries.map fun e => Text.quoted e.1 ++ ": " ++ Text.quoted e.2) ++ "\x7d)"

end Imports

/-! ## 3. What names mean -/

/-- What the name of an annotation means: a fully qualified name itself, any other name by the
    alias at its head, which is looked up in lower case. -/
def resolveNote? (name : String) (aliases : Aliases) : Option String :=
  match fullyQualified? name with
  | some full => some full
  | none =>
    let (head, rest) := splitHead name
    (aliases.find? (Text.lowercase head)).map (substituteHead · rest)

/-- What the name of a class means in a namespace. -/
def resolveReference (name namespaceName : String) (aliases : Aliases) : String :=
  match fullyQualified? name with
  | some full => full
  | none =>
    let (head, rest) := splitHead name
    match aliases.findLower? head with
    | some target => substituteHead target rest
    | none => if namespaceName = "" then name else joinNames namespaceName name

/-! ## 4. Scopes -/

/-- The names in force at a point of a file. -/
structure Scope where
  namespaceName : String
  /-- All imports; they give class references their meaning. -/
  imports : Imports
  /-- The imports that annotations see. -/
  annotationImports : Imports
  /-- The full name of the latest class. -/
  typeName : Option String
  /-- The full name of its parent class. -/
  parentType : Option String

namespace Scope

/-- The scope at the start of a file. -/
def initial : Scope := ⟨"", .empty, .builtin, none, none⟩

/-- A name of the current namespace in full. -/
def qualify (s : Scope) (name : String) : String :=
  if s.namespaceName = "" then name else joinNames s.namespaceName name

/-- Whether an imported name leads into the annotation vendor's namespace. -/
def leadsToNotes (target : String) : Bool :=
  "swagger\\".toList.isPrefixOf (Text.lowercase (dropSeparators target)).toList

/-- Imports a name. -/
def addImport (s : Scope) (short target : String) : Scope :=
  { s with
    imports := s.imports.add short target
    annotationImports :=
      if leadsToNotes target then s.annotationImports.add short target
      else s.annotationImports }

/-- What the name of a class means in the scope. -/
def resolve (s : Scope) (name : String) : String :=
  resolveReference name s.namespaceName s.imports.entries

end Scope

end Marginalia
