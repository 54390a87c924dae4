import Marginalia.Note.Fault

/-!
# Fitting values into fields

A value that was written is fitted into the shape of its field. The fit is lenient: numbers and
words can stand for truth values, texts and doubles for whole numbers, a map for an annotation.

* an attribute is given by its spelling or by its inner name; of the two the spelling counts and
  the other is unknown;
* null fits everything but the fields that always hold a list;
* all faults of an annotation are reported: those of its attributes in their order, then the
  attributes it does not have, in the order in which they were written.
-/

namespace Marginalia

open Number (Binary64)

/-! ## 1. Attributes -/

/-- What can be given a value in an annotation: its two ties to partial definitions, and its
    fields. -/
inductive Attribute where
  | partialId
  | partials
  | field (f : Field)
deriving DecidableEq, Repr

namespace Attribute

/-- The inner name of an attribute. -/
def key : Attribute → String
  | .partialId => "partial_id"
  | .partials => "partials"
  | .field f => f.key

/-- The name an attribute is written with. -/
def spelling : Attribute → String
  | .partialId => "partial"
  | .partials => "partials"
  | .field f => f.spelling

/-- The shape of an attribute's values. -/
def shape : Attribute → Shape
  | .partialId => .text
  | .partials => .list .text
  | .field f => f.shape

/-- Whether an attribute refuses null. -/
def refusesNull : Attribute → Bool
  | .partialId => false
  | .partials => true
  | .field f => f.alwaysList

/-- Whether a name names the attribute. -/
def isNamed (a : Attribute) (name : String) : Bool := a.spelling == name || a.key == name

end Attribute

/-- The attributes of a kind, in the order in which they are checked. -/
def Kind.attributes (k : Kind) : List Attribute :=
  .partialId :: .partials :: k.fields.map .field

/-- The attribute of a kind that a name names. -/
def Kind.attribute? (k : Kind) (name : String) : Option Attribute :=
  k.attributes.find? (·.isNamed name)

/-- The attributes of an annotation with their values. -/
def Note.attributeValues (a : Note) : List (String × Value) :=
  ("partial_id", .ofText? a.partialId) :: ("partials", .list (a.partials.map .text)) ::
    a.fields.map fun e => (e.1.key, e.2)

/-! ## 2. Scalars -/

/-- The words that stand for a truth value, in any case. -/
def flagOfWord? (word : String) : Option Bool :=
  let w := String.ofList (word.toList.map Char.toLower)
  if w ∈ ["0", "off", "f", "false", "n", "no"] then some false
  else if w ∈ ["1", "on", "t", "true", "y", "yes"] then some true
  else none

/-- The truth value of a whole number: zero and one are truth values, other numbers of 64 bits
    cannot be read as one, and greater numbers are no candidates. -/
def flagOfInt (n : Int) : Except Misfit Bool :=
  if n = 0 then .ok false
  else if n = 1 then .ok true
  else if -(Number.twoTo 63 : Int) ≤ n && n < Number.twoTo 63 then .error .unreadableFlag
  else .error .notFlag

/-- The whole number that a double is: it must lie strictly between `-2 ^ 63` and `2 ^ 63`. -/
def wholeOfReal (x : Binary64) : Except Misfit Int :=
  match x, x.toInt? with
  | .infinite _, _ => .error .infinite
  | _, none => .error .fractional
  | _, some n => if n.natAbs < Number.twoTo 63 then .ok n else .error .tooLarge

/-- The truth value of a double: that of the whole number it is. -/
def flagOfReal (x : Binary64) : Except Misfit Bool :=
  match wholeOfReal x with
  | .ok n => flagOfInt n
  | .error _ => .error .notFlag

/-- Fits a value as a truth value. -/
def fitFlag (v : Value) : Except Misfit Value :=
  match v with
  | .bool b => .ok (.bool b)
  | .int n => (flagOfInt n).map .bool
  | .real x => (flagOfReal x).map .bool
  | .text s => match flagOfWord? s with
    | some b => .ok (.bool b)
    | none => .error .unreadableFlag
  | _ => .error .notFlag

/-- Fits a value as a whole number. -/
def fitWhole (v : Value) : Except Misfit Value :=
  match v with
  | .int n => .ok (.int n)
  | .bool b => .ok (.int (if b then 1 else 0))
  | .real x => (wholeOfReal x).map .int
  | .text s => match Number.wholeOfText s with
    | .ok n => .ok (.int n)
    | .error .tooLong => .error .tooLarge
    | .error .unreadable => .error .unreadableWhole
  | _ => .error .notWhole

/-- Fits a value as text. -/
def fitText (v : Value) : Except Misfit Value :=
  match v with
  | .text s => .ok (.text s)
  | _ => .error .notText

/-- The outcome of a fit: the value, or all that is wrong. -/
abbrev Fitted (α : Type) := Except (List FieldFault) α

/-- A misfit as the fault of the value itself. -/
def Fitted.ofMisfit (v : Value) : Except Misfit Value → Fitted Value
  | .ok w => .ok w
  | .error m => .error [⟨[], m, v.typeName⟩]

/-- Both outcomes together; the faults of both are kept. -/
def Fitted.both {α β γ : Type} (f : α → β → γ) : Fitted α → Fitted β → Fitted γ
  | .ok a, .ok b => .ok (f a b)
  | .ok _, .error e => .error e
  | .error e, .ok _ => .error e
  | .error e, .error e' => .error (e ++ e')

/-- The outcome seen from one step further out. -/
def Fitted.under {α : Type} (step : Step) : Fitted α → Fitted α
  | .ok a => .ok a
  | .error e => .error (e.map (·.under step))

/-- The misfit of something that is neither scalar nor annotation, for each shape. -/
def Shape.misfit : Shape → Misfit
  | .text | .anything => .notText
  | .flag => .notFlag
  | .whole => .notWhole
  | .list _ => .notList
  | .child k => .notNote k

/-- Fits a value that has no parts into a shape. -/
def fitScalar (shape : Shape) (v : Value) : Fitted Value :=
  match shape with
  | .text => .ofMisfit v (fitText v)
  | .flag => .ofMisfit v (fitFlag v)
  | .whole => .ofMisfit v (fitWhole v)
  | .anything => .ok v
  | s => .error [⟨[], s.misfit, v.typeName⟩]

/-- An annotation given for a list is read as the list of its attributes, each a name and a value;
    only a list of anything can take them. -/
def fitAttributes (item : Shape) (a : Note) : Fitted Value :=
  match item with
  | .anything => .ok (.list (a.attributeValues.map fun e => .pair e.1 e.2))
  | _ => .error ((List.range a.attributeValues.length).map fun i =>
      ⟨[.index i], item.misfit, "tuple"⟩)

/-! ## 3. Lists, maps and annotations -/

/-- One entry of a map, read as an attribute of an annotation. -/
structure Reading where
  key : Key
  /-- The type of the value that was given. -/
  given : String
  /-- The value fitted into the attribute that the key names, if it names one. -/
  fitted : Fitted Value

/-- The reading that counts for an attribute: by spelling first, then by inner name. -/
def Attribute.chosen? (a : Attribute) (readings : List Reading) : Option Reading :=
  (readings.find? (·.key == .text a.spelling)).or (readings.find? (·.key == .text a.key))

/-- The value of an attribute: what was given for it, or its default. -/
def Attribute.fitted (a : Attribute) (readings : List Reading) : Fitted Value :=
  match a.chosen? readings with
  | some r => r.fitted.under (.attribute r.key.toText)
  | none => .ok (if a.refusesNull then .list [] else .null)

/-- The faults of an outcome. -/
def Fitted.faults {α : Type} : Fitted α → List FieldFault
  | .ok _ => []
  | .error e => e

/-- The fault of an entry that counts for no attribute. -/
def Reading.leftover (r : Reading) : FieldFault :=
  match r.key with
  | .text s => ⟨[.attribute s], .unknownAttribute, r.given⟩
  | k => ⟨[.attribute k.toText], .keyNotText, k.typeName⟩

/-- The readings that count for no attribute of the kind. -/
def Kind.leftovers (k : Kind) (readings : List Reading) : List Reading :=
  let used := (k.attributes.filterMap (·.chosen? readings)).map (·.key)
  readings.filter fun r => !used.contains r.key

/-- The value of an attribute that fits. -/
def Attribute.value (a : Attribute) (readings : List Reading) : Value :=
  match a.fitted readings with
  | .ok v => v
  | .error _ => .null

/-- Puts an annotation together from readings of its attributes. -/
def Kind.assemble (k : Kind) (readings : List Reading) : Fitted Note :=
  let faults := k.attributes.flatMap (fun a => (a.fitted readings).faults) ++
    (k.leftovers readings).map (·.leftover)
  if faults.isEmpty then
    .ok {
      kind := k
      partialId := (Attribute.partialId.value readings).text?
      partials := (Attribute.partials.value readings).items.filterMap Value.text?
      fields := k.fields.map fun f => (f, (Attribute.field f).value readings) }
  else .error faults

mutual

/-- Fits a value into a shape. -/
def fit (shape : Shape) : Value → Fitted Value
  | .list vs => match shape with
    | .list item => (fitItems item 0 vs).map .list
    | .anything => .ok (.list vs)
    | s => .error [⟨[], s.misfit, "list"⟩]
  | .pair name v => match shape with
    | .list item => .both (fun x y => .list [x, y])
        ((fitScalar item (.text name)).under (.index 0)) ((fit item v).under (.index 1))
    | .anything => .ok (.pair name v)
    | s => .error [⟨[], s.misfit, "tuple"⟩]
  | .map es => match shape with
    | .child k => (k.assemble (readEntries k es)).map .note
    | .anything => .ok (.map es)
    | s => .error [⟨[], s.misfit, "dict"⟩]
  | .note a => match shape with
    | .child k => if a.kind = k then .ok (.note a) else .error [⟨[], .notNote k, a.kind.name⟩]
    | .list item => fitAttributes item a
    | .anything => .ok (.note a)
    | s => .error [⟨[], s.misfit, a.kind.name⟩]
  | v => fitScalar shape v

/-- Fits the items of a list, counted from `i`. -/
def fitItems (item : Shape) (i : Nat) : List Value → Fitted (List Value)
  | [] => .ok []
  | v :: vs => .both List.cons ((fit item v).under (.index i)) (fitItems item (i + 1) vs)

/-- Reads the entries of a map as attributes of a kind. -/
def readEntries (k : Kind) : List (Key × Value) → List Reading
  | [] => []
  | (key, v) :: es =>
    ⟨key, v.typeName, match k.attribute? key.toText with
      | some a => if v.isNull && !a.refusesNull then .ok .null else fit a.shape v
      | none => .ok v⟩ :: readEntries k es

end

/-- Checks named values as the attributes of an annotation of a kind. -/
def Kind.check (k : Kind) (entries : List (Key × Value)) : Fitted Note :=
  k.assemble (readEntries k entries)

end Marginalia
