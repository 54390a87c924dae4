import Marginalia.Report

/-!
# Reports as JSON documents

A report is printed as one JSON document.

* `Document` is what JSON can say; numbers are kept as the digits they are written with;
* a value becomes a document unless the place of a foreign annotation is left in it
  (`Value.document?`). Map keys become text, and an infinity, which JSON cannot say, becomes null;
  two infinite keys of a map both stay, under one name;
* the text is indented by two blanks a level, empty lists and objects take no lines of their own,
  and of the characters only quotes, backslashes and controls are escaped (`Document.print`).
-/

namespace Marginalia

/-! ## 1. Documents -/

/-- A JSON document. -/
inductive Document where
  | null
  | bool (b : Bool)
  | number (digits : String)
  | text (s : String)
  | array (items : List Document)
  | object (members : List (String × Document))

/-- How numbers are written: positional from a hundred-thousandth up to sixteen digits, otherwise
    with a signed exponent that has no zeros in front. -/
def documentLayout : Number.Layout := ⟨-4, 16, 1⟩

/-- A double as a document. -/
def realDocument (x : Number.Binary64) : Document :=
  match documentLayout.text? x with
  | some digits => .number digits
  | none => .null

/-- A key as the name of a member. An infinity has no name of its own. -/
def Key.memberName : Key → String
  | .real (.infinite _) => "None"
  | k => k.toText

mutual

/-- A value as a document; none if a foreign annotation's place is left in it. Of an annotation
    what `Note.dump` keeps is said. -/
def Value.document? : Value → Option Document
  | .null => some .null
  | .bool b => some (.bool b)
  | .int n => some (.number (intText n))
  | .real x => some (realDocument x)
  | .text s => some (.text s)
  | .list vs => (itemDocuments? vs).map .array
  | .pair name v => v.document?.map fun d => .array [.text name, d]
  | .map es => (memberDocuments? es).map .object
  | .note a => a.document?
  | .foreign => none
  | .shared _ _ => some (.array [])

/-- An annotation as a document. -/
def Note.document? : Note → Option Document
  | ⟨_, _, _, fields⟩ => (slotDocuments? fields).map .object

/-- `Value.document?` on list items. -/
def itemDocuments? : List Value → Option (List Document)
  | [] => some []
  | v :: vs => match v.document?, itemDocuments? vs with
    | some d, some ds => some (d :: ds)
    | _, _ => none

/-- `Value.document?` on map entries. -/
def memberDocuments? : List (Key × Value) → Option (List (String × Document))
  | [] => some []
  | (k, v) :: es => match v.document?, memberDocuments? es with
    | some d, some ds => some ((k.memberName, d) :: ds)
    | _, _ => none

/-- `Value.document?` on fields. -/
def slotDocuments? : List (Field × Value) → Option (List (String × Document))
  | [] => some []
  | (f, v) :: es =>
    if f.isInternal || v.isNull then slotDocuments? es
    else match v.document?, slotDocuments? es with
      | some d, some ds => some ((f.spelling, d) :: ds)
      | _, _ => none

end

/-- Annotations as documents. -/
def noteDocuments? : List Note → Option (List Document)
  | [] => some []
  | a :: more => match a.document?, noteDocuments? more with
    | some d, some ds => some (d :: ds)
    | _, _ => none

/-- Definitions as members of a document. -/
def definitionDocuments? : Definitions → Option (List (String × Document))
  | [] => some []
  | (id, a) :: more => match a.document?, definitionDocuments? more with
    | some d, some ds => some ((id, d) :: ds)
    | _, _ => none

/-- A diagnostic as a document. -/
def Diagnostic.document (d : Diagnostic) : Document :=
  .object [("severity", .text d.severity.name), ("message", .text d.message),
    ("location", .text d.location)]

/-- A report as a document. -/
def Report.document? (r : Report) : Option Document :=
  match noteDocuments? r.resources, noteDocuments? r.models, definitionDocuments? r.definitions with
  | some resources, some models, some definitions =>
    some (.object [("files", .array (r.files.map .text)), ("resources", .array resources),
      ("models", .array models), ("partials", .object definitions),
      ("diagnostics", .array (r.log.map Diagnostic.document))])
  | _, _, _ => none

/-! ## 2. Text -/

/-- A character inside a string. -/
def escapeChar (c : Char) : List Char :=
  if c = '"' then ['\\', '"']
  else if c = '\\' then ['\\', '\\']
  else if c = '\n' then ['\\', 'n']
  else if c = '\t' then ['\\', 't']
  else if c = '\r' then ['\\', 'r']
  else if c.toNat = 0x08 then ['\\', 'b']
  else if c.toNat = 0x0C then ['\\', 'f']
  else if c.toNat < 0x20 then '\\' :: 'u' :: Text.hexDigits 4 c.toNat
  else [c]

/-- A string with its quotes. -/
def stringLiteral (s : String) : List Char := '"' :: s.toList.flatMap escapeChar ++ ['"']

/-- The start of a line at a depth. -/
def newLine (depth : Nat) : List Char := '\n' :: List.replicate (2 * depth) ' '

/-- Pieces on lines of their own, one level below `depth`, between two brackets. -/
def enclosed (depth : Nat) (opening closing : Char) : List (List Char) → List Char
  | [] => [opening, closing]
  | p :: ps =>
    opening :: newLine (depth + 1) ++ p ++
      ps.flatMap (fun q => ',' :: newLine (depth + 1) ++ q) ++ newLine depth ++ [closing]

mutual

/-- The text of a document at a depth. -/
def Document.chars (depth : Nat) : Document → List Char
  | .null => "null".toList
  | .bool true => "true".toList
  | .bool false => "false".toList
  | .number digits => digits.toList
  | .text s => stringLiteral s
  | .array items => enclosed depth '[' ']' (itemChars (depth + 1) items)
  | .object members => enclosed depth '\x7b' '\x7d' (memberChars (depth + 1) members)

/-- The texts of items. -/
def itemChars (depth : Nat) : List Document → List (List Char)
  | [] => []
  | d :: ds => d.chars depth :: itemChars depth ds

/-- The texts of members. -/
def memberChars (depth : Nat) : List (String × Document) → List (List Char)
  | [] => []
  | (name, d) :: ds =>
    (stringLiteral name ++ ':' :: ' ' :: d.chars depth) :: memberChars depth ds

end

/-- The text of a document, with a line feed at its end. -/
def Document.print (d : Document) : String := String.ofList (d.chars 0 ++ ['\n'])

end Marginalia
