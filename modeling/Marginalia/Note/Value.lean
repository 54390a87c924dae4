import Marginalia.Note.Kind
import Marginalia.Number.Shortest

/-!
# Values and annotations

What an annotation says is a value for each of its fields. Untyped fields take any value that can
be written, so values and annotations are defined together:

* a map keeps the order in which its keys were first written; two numeric keys are the same key if
  they are the same number (`Key.same`);
* `Value.pair` is an attribute of an annotation that was taken apart, its name and its value;
* `Value.foreign` stands where an annotation of somebody else's vocabulary was written;
* `Value.shared` is a list that an annotation has in common with a partial definition: whoever
  reads it sees the definition's list as it is at that time (`Value.resolve`);
* an annotation holds one value per field of its kind, null where nothing was said, beside the
  two things that partial definitions are tied together with: the id under which it is itself a
  definition, and the ids of the definitions it refers to.
-/

namespace Marginalia

open Number (Binary64)

/-! ## 1. Keys -/

/-- A key of a map. -/
inductive Key where
  | text (s : String)
  | whole (n : Int)
  | real (x : Binary64)
deriving DecidableEq, Repr

/-- How numbers are written where they name something: positional up to sixteen digits, otherwise
    with a signed exponent of at least two digits. -/
def nameLayout : Number.Layout := ⟨-3, 16, 2⟩

/-- The text of a whole number. -/
def intText (n : Int) : String :=
  String.ofList ((if n < 0 then ['-'] else []) ++ Text.natDigits n.natAbs)

/-- The text of a double where it names something. -/
def realText (x : Binary64) : String :=
  match nameLayout.text? x, x with
  | some s, _ => s
  | none, .infinite true => "-inf"
  | none, _ => "inf"

namespace Key

/-- The text of a key. -/
def toText : Key → String
  | .text s => s
  | .whole n => intText n
  | .real x => realText x

/-- Whether two keys are the same key. -/
def same : Key → Key → Bool
  | .text s, .text t => s == t
  | .whole m, .whole n => m == n
  | .whole m, .real y => y.toInt? == some m
  | .real x, .whole n => x.toInt? == some n
  | .real x, .real y => x.sameNumber y
  | _, _ => false

/-- The type a key is reported with. -/
def typeName : Key → String
  | .text _ => "str"
  | .whole _ => "int"
  | .real _ => "float"

end Key

/-! ## 2. Values and annotations -/

mutual

/-- What a field can hold. -/
inductive Value where
  | null
  | bool (b : Bool)
  | int (n : Int)
  | real (x : Binary64)
  | text (s : String)
  | list (items : List Value)
  | pair (name : String) (value : Value)
  | map (entries : List (Key × Value))
  | note (a : Note)
  | foreign
  | shared (origin : String) (field : Field)

/-- An annotation: its kind and what it says. -/
structure Note where
  kind : Kind
  /-- The id under which the annotation is a partial definition. -/
  partialId : Option String
  /-- The ids of the partial definitions the annotation refers to. -/
  partials : List String
  /-- The fields of the kind, in order, with their values. -/
  fields : List (Field × Value)

end

instance : Inhabited Value := ⟨.null⟩

namespace Value

/-- Whether nothing is said. -/
def isNull : Value → Bool
  | .null => true
  | _ => false

/-- The type a value is reported with. -/
def typeName : Value → String
  | .null => "NoneType"
  | .bool _ => "bool"
  | .int _ => "int"
  | .real _ => "float"
  | .text _ => "str"
  | .list _ | .shared _ _ => "list"
  | .pair _ _ => "tuple"
  | .map _ => "dict"
  | .note a => a.kind.name
  | .foreign => "_Skip"

/-- The items of a list. -/
def items : Value → List Value
  | .list vs => vs
  | _ => []

/-- The text that a value is, if it is one. -/
def text? : Value → Option String
  | .text s => some s
  | _ => none

/-- Text, or null where there is none. -/
def ofText? : Option String → Value
  | some s => .text s
  | none => .null

end Value

/-- Enters a value under a key: a key that is already there keeps its place and its own form. -/
def putEntry (entries : List (Key × Value)) (k : Key) (v : Value) : List (Key × Value) :=
  if entries.any (·.1.same k) then
    entries.map fun e => if e.1.same k then (e.1, v) else e
  else entries ++ [(k, v)]

/-! ## 3. Reading and changing fields -/

namespace Field

/-- What a field holds when nothing is said: an empty list or null. -/
def default (f : Field) : Value := if f.alwaysList then .list [] else .null

end Field

namespace Note

/-- The annotation of a kind that says nothing. -/
def blank (k : Kind) : Note := ⟨k, none, [], k.fields.map fun f => (f, f.default)⟩

/-- The value of a field; null for a field that the kind does not have. -/
def get (a : Note) (f : Field) : Value := (a.fields.lookup f).getD .null

/-- The annotation with another value for a field that it has. -/
def set (a : Note) (f : Field) (v : Value) : Note :=
  { a with fields := a.fields.map fun e => if e.1 = f then (f, v) else e }

/-- The text of a field. -/
def text? (a : Note) (f : Field) : Option String := (a.get f).text?

/-- Fills a field that says nothing. -/
def fill (a : Note) (f : Field) (v : Value) : Note :=
  if (a.get f).isNull then a.set f v else a

/-- Adds a value at the end of a list field. -/
def push (a : Note) (f : Field) (v : Value) : Note :=
  a.set f (.list ((a.get f).items ++ [v]))

@[simp] theorem kind_set (a : Note) (f : Field) (v : Value) : (a.set f v).kind = a.kind := rfl

@[simp] theorem partialId_set (a : Note) (f : Field) (v : Value) :
    (a.set f v).partialId = a.partialId := rfl

@[simp] theorem partials_set (a : Note) (f : Field) (v : Value) :
    (a.set f v).partials = a.partials := rfl

end Note

/-! ## 4. The printed form -/

mutual

/-- A value as it is printed: annotations become maps. -/
def Value.dump : Value → Value
  | .list vs => .list (dumpItems vs)
  | .pair name v => .pair name v.dump
  | .map es => .map (dumpEntries es)
  | .note a => .map a.dumpFields
  | v => v

/-- The printed fields of an annotation: by their spelling, without nulls and without what is
    internal. -/
def Note.dumpFields : Note → List (Key × Value)
  | ⟨_, _, _, fields⟩ => dumpSlots fields

/-- The printed form of list items. -/
def dumpItems : List Value → List Value
  | [] => []
  | v :: vs => v.dump :: dumpItems vs

/-- The printed form of map entries. -/
def dumpEntries : List (Key × Value) → List (Key × Value)
  | [] => []
  | (k, v) :: es => (k, v.dump) :: dumpEntries es

/-- The printed form of fields. -/
def dumpSlots : List (Field × Value) → List (Key × Value)
  | [] => []
  | (f, v) :: es =>
    if f.isInternal || v.isNull then dumpSlots es else (.text f.spelling, v.dump) :: dumpSlots es

end

/-- An annotation as it is printed. -/
def Note.dump (a : Note) : Value := .map a.dumpFields

/-! ## 5. Shared lists -/

mutual

/-- A value with every shared list replaced by what `look` finds for it. -/
def Value.resolve (look : String → Field → Value) : Value → Value
  | .list vs => .list (resolveItems look vs)
  | .pair name v => .pair name (v.resolve look)
  | .map es => .map (resolveEntries look es)
  | .note a => .note (a.resolve look)
  | .shared origin f => look origin f
  | v => v

/-- An annotation with every shared list replaced by what `look` finds for it. -/
def Note.resolve (look : String → Field → Value) : Note → Note
  | ⟨k, id, refs, fields⟩ => ⟨k, id, refs, resolveSlots look fields⟩

/-- `Value.resolve` on list items. -/
def resolveItems (look : String → Field → Value) : List Value → List Value
  | [] => []
  | v :: vs => v.resolve look :: resolveItems look vs

/-- `Value.resolve` on map entries. -/
def resolveEntries (look : String → Field → Value) : List (Key × Value) → List (Key × Value)
  | [] => []
  | (k, v) :: es => (k, v.resolve look) :: resolveEntries look es

/-- `Value.resolve` on fields. -/
def resolveSlots (look : String → Field → Value) : List (Field × Value) → List (Field × Value)
  | [] => []
  | (f, v) :: es => (f, v.resolve look) :: resolveSlots look es

end

end Marginalia
