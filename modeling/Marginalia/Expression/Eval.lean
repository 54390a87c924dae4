import Marginalia.Note.Build
import Marginalia.Expression.Tree
import Marginalia.Name

/-!
# The value of an annotation expression

Expressions are evaluated from the inside out and from left to right; the first fault ends the
evaluation.

* a name that is `true`, `false` or `null` in any case is that constant, any other name stands for
  its own text;
* a number with a point or an exponent is a double, any other a whole number;
* an array whose entries all have keys is a map, any other a list. Nulls and foreign annotations
  without a key leave no entry;
* an annotation that does not resolve into the annotation namespace is foreign, whatever its
  arguments are.
-/

namespace Marginalia.Expression

/-! ## 1. Atoms -/

/-- A text without its quotes, each doubled quote made single. -/
def undouble : List Char → List Char
  | [] => []
  | '"' :: '"' :: rest => '"' :: undouble rest
  | c :: rest => c :: undouble rest

/-- The text that a string lexeme stands for. -/
def unquote (lexeme : String) : String :=
  String.ofList (undouble (lexeme.toList.drop 1).dropLast)

/-- Reads a whole number of at most `Number.maxDigits` digits. -/
def readWhole (text : List Char) : Except Fault Int :=
  let count := (Number.splitSign text).2.length
  if Number.maxDigits < count then .error (.tooManyDigits count) else .ok (Number.readInt text)

/-- Reads a double. -/
def readReal (text : List Char) : Number.Binary64 := .ofDecimal (.read text)

/-- Whether a number is written as a whole number. -/
def isWholeText (text : List Char) : Bool :=
  !text.any fun c => c = '.' || Number.isExponentMark c

/-- The value of a name. -/
def constant (name : String) : Value :=
  match String.ofList (name.toList.map Char.toLower) with
  | "true" => .bool true
  | "false" => .bool false
  | "null" => .null
  | _ => .text name

/-- The value of an atom. -/
def Atom.value (a : Atom) : Except Fault Value :=
  match a.terminal with
  | .string => .ok (.text (unquote a.text))
  | .number =>
    if isWholeText a.text.toList then (readWhole a.text.toList).map .int
    else .ok (.real (readReal a.text.toList))
  | _ => .ok (constant a.text)

/-- The key that an atom is: names stand for themselves. -/
def Atom.key (a : Atom) : Except Fault Key :=
  match a.terminal with
  | .string => .ok (.text (unquote a.text))
  | .number =>
    if isWholeText a.text.toList then (readWhole a.text.toList).map .whole
    else .ok (.real (readReal a.text.toList))
  | _ => .ok (.text a.text)

/-! ## 2. Items -/

/-- An evaluated item. -/
structure Part where
  key : Option Key
  value : Value

/-- Whether an item leaves a trace: nulls and foreign annotations without a key do not. -/
def Part.counts (p : Part) : Bool :=
  match p.key, p.value with
  | none, .null => false
  | none, .foreign => false
  | _, _ => true

/-- The argument that an item is. -/
def Part.argument (p : Part) : Argument :=
  match p.key with
  | some k => .named k.toText p.value
  | none => .positional p.value

/-- The value of an array. -/
def arrayValue (parts : List Part) : Value :=
  let kept := parts.filter Part.counts
  if !kept.isEmpty && kept.all (·.key.isSome) then
    .map (kept.foldl (fun es p => putEntry es (p.key.getD (.text "")) p.value) [])
  else .list (kept.map (·.value))

/-! ## 3. Annotations -/

/-- The start of every name in the annotation namespace, in lower case. -/
def namespaceStart : List Char := "swagger\\annotations\\".toList

/-- The kind that a name means: none if the name leads elsewhere, a fault if it leads into the
    annotation namespace but to no annotation. -/
def kindOf (aliases : Aliases) (name : String) : Except Fault (Option Kind) :=
  match resolveNote? name aliases with
  | none => .ok none
  | some full =>
    if namespaceStart.isPrefixOf (Text.lower full.toList) then
      match Kind.ofKey? (String.ofList (Text.lower (full.toList.drop namespaceStart.length))) with
      | some k => .ok (some k)
      | none => .error (.unknownNote name)
    else .ok none

/-- The value of an annotation with evaluated arguments. -/
def annotate (aliases : Aliases) (name : String) (parts : List Part) : Except Fault Value :=
  match kindOf aliases name with
  | .error fault => .error fault
  | .ok none => .ok .foreign
  | .ok (some k) =>
    (Note.build k ((parts.filter Part.counts).map Part.argument)).map .note

/-- The key of a label. -/
def labelKey : Option Atom → Except Fault (Option Key)
  | none => .ok none
  | some a => a.key.map some

mutual

/-- The value of an expression. -/
def Tree.eval (aliases : Aliases) : Tree → Except Fault Value
  | .atom a => a.value
  | .array items => (evalItems aliases items).map arrayValue
  | .bare name => annotate aliases name []
  | .call name arguments => match evalItems aliases arguments with
    | .error fault => .error fault
    | .ok parts => annotate aliases name parts

/-- The value of an item. -/
def Item.eval (aliases : Aliases) : Item → Except Fault Part
  | ⟨label, tree⟩ => match labelKey label with
    | .error fault => .error fault
    | .ok key => (tree.eval aliases).map (⟨key, ·⟩)

/-- The values of items. -/
def evalItems (aliases : Aliases) : List Item → Except Fault (List Part)
  | [] => .ok []
  | item :: more => match item.eval aliases with
    | .error fault => .error fault
    | .ok part => (evalItems aliases more).map (part :: ·)

end

/-- Reads and evaluates an annotation expression. -/
def evaluate (aliases : Aliases) (text : List Char) : Except Fault Value :=
  match parse text with
  | .error fault => .error fault
  | .ok tree => tree.eval aliases

end Marginalia.Expression
