import Marginalia.Registry

/-!
# Expanding references to partial definitions

An annotation refers to partial definitions by their ids. Expanding it makes the references good:

* a definition of the annotation's own kind is merged into it: it fills what the annotation leaves
  unsaid and extends its lists. The references of such a definition become references of the
  annotation, each id once, behind those it already has (`queue`);
* a definition of a kind that the annotation can nest is inserted as a copy, which is expanded in
  turn. An id from which the copy descends is not followed again (`chain`);
* then the annotations below are expanded.

A list that fills an unsaid field is not copied: annotation and definition have it in common
(`Value.shared`), and whatever is added to it later is added to the definition. Two things never
come to an end and are refused: a list that would be extended by itself, and members of groups that
lead ever deeper into one another (`Unexpandable`).
-/

namespace Marginalia

/-! ## 1. The ids to follow -/

/-- The ids among `ids` that are new, each once. -/
def newIds (seen : List String) : List String → List String
  | [] => []
  | id :: more =>
    if seen.contains id then newIds seen more else id :: newIds (seen ++ [id]) more

/-- The ids that a definition passes on to an annotation of a kind. -/
def passedOn (defs : Definitions) (kind : Kind) (chain : List String) (id : String) :
    List String :=
  match defs.find? id with
  | some d => if d.kind = kind && !chain.contains id then d.partials else []
  | none => []

/-- The references of all definitions. -/
def Definitions.references (defs : Definitions) : List String := defs.flatMap (·.2.partials)

/-- The references of all definitions that have not been seen. -/
def Definitions.unseen (defs : Definitions) (seen : List String) : List String :=
  defs.references.filter fun id => !seen.contains id

theorem mem_references_of_passedOn {defs : Definitions} {kind : Kind} {chain : List String}
    {id r : String} (h : r ∈ passedOn defs kind chain id) : r ∈ defs.references := by
  unfold passedOn at h
  split at h
  · rename_i d hd
    split at h
    · exact List.mem_flatMap.mpr ⟨(id, d), Definitions.mem_of_find? hd, h⟩
    · cases h
  · cases h

/-- An id that is seen for the first time leaves fewer unseen. -/
theorem Definitions.unseen_lt {defs : Definitions} {seen : List String} {id : String}
    (hmem : id ∈ defs.references) (hnew : seen.contains id = false) :
    (defs.unseen (seen ++ [id])).length < (defs.unseen seen).length := by
  have hfilter : defs.unseen (seen ++ [id]) = (defs.unseen seen).filter (· ≠ id) := by
    unfold unseen
    rw [List.filter_filter]
    refine List.filter_congr fun r _ => ?_
    simp [Bool.and_comm]
  rw [hfilter, List.length_filter_lt_length_iff_exists]
  refine ⟨id, List.mem_filter.mpr ⟨hmem, by rw [hnew]; rfl⟩, ?_⟩
  simp

theorem Definitions.unseen_newIds (defs : Definitions) (seen ids : List String)
    (h : ∀ id ∈ ids, id ∈ defs.references) :
    (newIds seen ids).length + (defs.unseen (seen ++ newIds seen ids)).length ≤
      (defs.unseen seen).length := by
  induction ids generalizing seen with
  | nil =>
      refine Nat.le_of_eq ?_
      rw [newIds, List.append_nil, List.length_nil, Nat.zero_add]
  | cons id ids ih =>
      have hids : ∀ r ∈ ids, r ∈ defs.references := fun r hr => h r (List.mem_cons_of_mem id hr)
      unfold newIds
      split
      · exact ih seen hids
      · rename_i hnew
        have hlt := unseen_lt (h id List.mem_cons_self) (Bool.eq_false_iff.mpr hnew)
        have hrest := ih (seen ++ [id]) hids
        rw [List.append_assoc, List.singleton_append] at hrest
        rw [List.length_cons]
        omega

/-- The ids to follow, breadth first: those still waiting, and those that they pass on and that
    have not been seen. Every step either shortens the row or sees something new. -/
def queueFrom (defs : Definitions) (kind : Kind) (chain seen : List String) :
    List String → List String
  | [] => []
  | id :: waiting =>
    let fresh := newIds seen (passedOn defs kind chain id)
    id :: queueFrom defs kind chain (seen ++ fresh) (waiting ++ fresh)
termination_by waiting => waiting.length + (defs.unseen seen).length
decreasing_by
  have h := defs.unseen_newIds seen (passedOn defs kind chain id) fun r hr =>
    mem_references_of_passedOn hr
  simp only [List.length_append, List.length_cons]
  omega

/-- The ids that an annotation follows. -/
def queue (defs : Definitions) (chain : List String) (a : Note) : List String :=
  queueFrom defs a.kind chain a.partials a.partials

/-! ## 2. Merging a definition -/

/-- Adds items to a list of a definition. -/
def Definitions.extend (defs : Definitions) (id : String) (f : Field) (items : List Value) :
    Definitions :=
  defs.map fun e => if e.1 == id then (e.1, e.2.set f (.list ((e.2.get f).items ++ items))) else e

/-- Why an annotation cannot be expanded. -/
inductive Unexpandable where
  /-- Something that is not an annotation stands where annotations are expanded. -/
  | notANote (typeName : String)
  /-- A list would be extended by its own items, and with every item by one more. -/
  | endless (id : String) (field : Field)
  /-- Members of groups lead ever deeper into one another. -/
  | bottomless
deriving DecidableEq, Repr

/-- The wording of the refusal. -/
def Unexpandable.message : Unexpandable → String
  | .notANote typeName => "'" ++ typeName ++ "' object has no attribute 'partials'"
  | .endless id f => "Partial \"" ++ id ++ "\" extends its own " ++ f.spelling ++ " without end"
  | .bottomless => "maximum recursion depth exceeded"

/-- Merges one field of a definition into an annotation. A list that the annotation has from the
    very same definition cannot be extended by itself. -/
def mergeField (id : String) (d a : Note) (defs : Definitions) (f : Field) :
    Except Unexpandable (Note × Definitions) :=
  match a.get f, d.get f with
  | .list xs, .list ys => .ok (a.set f (.list (xs ++ ys)), defs)
  | .shared origin g, .list ys =>
    if origin = id && g = f && !ys.isEmpty then .error (.endless id f)
    else .ok (a, defs.extend origin g ys)
  | .null, .list _ => .ok (a.set f (.shared id f), defs)
  | .null, v => .ok (a.set f v, defs)
  | _, _ => .ok (a, defs)

/-- Merges fields of a definition into an annotation. -/
def mergeFields (id : String) (d : Note) :
    Note → Definitions → List Field → Except Unexpandable (Note × Definitions)
  | a, defs, [] => .ok (a, defs)
  | a, defs, f :: more => match mergeField id d a defs f with
    | .error e => .error e
    | .ok (merged, defs) => mergeFields id d merged defs more

/-- Merges a definition into an annotation of its kind. -/
def merge (id : String) (d a : Note) (defs : Definitions) :
    Except Unexpandable (Note × Definitions) :=
  mergeFields id d a defs a.kind.fields

/-! ## 3. Expansion -/

/-- What expansion produces: the annotation, the definitions as they have become, and what there
    is to say. -/
structure Expanded (α : Type) where
  result : α
  definitions : Definitions
  log : Log

/-- Expands one annotation, given the ids it descends from and the definitions. -/
abbrev Expander := List String → Definitions → Note → Except Unexpandable (Expanded Note)

/-- The warning about an id that is not defined. -/
def unknownIdMessage (id : String) : String := "Partial \"" ++ id ++ "\" not found"

/-- The warning about an id that leads back to itself. -/
def circularMessage (id : String) : String := "Partial \"" ++ id ++ "\" references itself"

/-- The warning about a definition that the annotation has no place for. -/
def notAllowedMessage (id : String) (inner outer : Kind) : String :=
  "Partial \"" ++ id ++ "\" (" ++ inner.tag ++ ") is not allowed inside " ++ outer.tag

/-- A definition as it is inserted: it is no definition any more. -/
def Note.asCopy (d : Note) : Note := { d with partialId := none }

/-- Puts a nested annotation into its field: at the end of a list, or in place of what was
    there. -/
def Note.insert (a : Note) (f : Field) (inner : Note) : Note :=
  if f.alwaysList then a.push f (.note inner) else a.set f (.note inner)

/-- Follows one id. -/
def followId (inner : Expander) (location : String) (chain : List String) (a : Note)
    (defs : Definitions) (id : String) : Except Unexpandable (Expanded Note) :=
  match defs.find? id with
  | none => .ok ⟨a, defs, warning (unknownIdMessage id) location⟩
  | some d =>
    if chain.contains id then .ok ⟨a, defs, warning (circularMessage id) location⟩
    else if d.kind = a.kind then
      match merge id d a defs with
      | .error e => .error e
      | .ok (merged, defs) => .ok ⟨merged, defs, []⟩
    else match a.kind.nestField? d.kind with
      | some f =>
        if d.kind.isGroup then
          .ok ⟨a, defs, warning (notAllowedMessage id d.kind a.kind) location⟩
        else match inner (chain ++ [id]) defs d.asCopy with
          | .error e => .error e
          | .ok x => .ok ⟨a.insert f x.result, x.definitions, x.log⟩
      | none => .ok ⟨a, defs, warning (notAllowedMessage id d.kind a.kind) location⟩

/-- Follows ids one after another. -/
def followIds (inner : Expander) (location : String) (chain : List String) :
    Note → Definitions → List String → Except Unexpandable (Expanded Note)
  | a, defs, [] => .ok ⟨a, defs, []⟩
  | a, defs, id :: more =>
    match followId inner location chain a defs id with
    | .error e => .error e
    | .ok x => match followIds inner location chain x.result x.definitions more with
      | .error e => .error e
      | .ok y => .ok ⟨y.result, y.definitions, x.log ++ y.log⟩

/-- Expands the members of a list. -/
def expandItems (inner : Expander) (chain : List String) :
    Definitions → List Value → Except Unexpandable (Expanded (List Value))
  | defs, [] => .ok ⟨[], defs, []⟩
  | defs, v :: more =>
    match v with
    | .note a => match inner chain defs a with
      | .error e => .error e
      | .ok x => match expandItems inner chain x.definitions more with
        | .error e => .error e
        | .ok y => .ok ⟨.note x.result :: y.result, y.definitions, x.log ++ y.log⟩
    | other => .error (.notANote other.typeName)

/-- Expands what a field holds. -/
def expandField (inner : Expander) (chain : List String) (a : Note) (defs : Definitions)
    (f : Field) : Except Unexpandable (Expanded Note) :=
  match a.get f with
  | .list vs => match expandItems inner chain defs vs with
    | .error e => .error e
    | .ok x => .ok ⟨a.set f (.list x.result), x.definitions, x.log⟩
  | .note child => match inner chain defs child with
    | .error e => .error e
    | .ok x => .ok ⟨a.set f (.note x.result), x.definitions, x.log⟩
  | _ => .ok ⟨a, defs, []⟩

/-- Expands what fields hold, one after another. -/
def expandFields (inner : Expander) (chain : List String) :
    Note → Definitions → List Field → Except Unexpandable (Expanded Note)
  | a, defs, [] => .ok ⟨a, defs, []⟩
  | a, defs, f :: more =>
    match expandField inner chain a defs f with
    | .error e => .error e
    | .ok x => match expandFields inner chain x.result x.definitions more with
      | .error e => .error e
      | .ok y => .ok ⟨y.result, y.definitions, x.log ++ y.log⟩

/-- Expands an annotation that reaches no deeper than a depth. -/
def expandTo (location : String) : Nat → Expander
  | 0 => fun _ _ _ => .error .bottomless
  | depth + 1 => fun chain defs a =>
    let inner := expandTo location depth
    match followIds inner location chain a defs (queue defs chain a) with
    | .error e => .error e
    | .ok x =>
      let bare := { x.result with partials := [] }
      match expandFields inner chain bare x.definitions a.kind.nestFields with
      | .error e => .error e
      | .ok y => .ok ⟨y.result, y.definitions, x.log ++ y.log⟩

/-! ## 4. How deep to go -/

mutual

/-- How deep annotations are nested in a value. -/
def Value.depth : Value → Nat
  | .list vs => itemsDepth vs
  | .pair _ v => v.depth
  | .map es => entriesDepth es
  | .note a => a.depth + 1
  | _ => 0

/-- How deep annotations are nested in an annotation. -/
def Note.depth : Note → Nat
  | ⟨_, _, _, fields⟩ => slotsDepth fields

/-- `Value.depth` on list items. -/
def itemsDepth : List Value → Nat
  | [] => 0
  | v :: vs => max v.depth (itemsDepth vs)

/-- `Value.depth` on map entries. -/
def entriesDepth : List (Key × Value) → Nat
  | [] => 0
  | (_, v) :: es => max v.depth (entriesDepth es)

/-- `Value.depth` on fields. -/
def slotsDepth : List (Field × Value) → Nat
  | [] => 0
  | (_, v) :: es => max v.depth (slotsDepth es)

end

/-- How deep annotations are nested in all definitions together, each of them counted as one
    more. -/
def Definitions.depth : Definitions → Nat
  | [] => 0
  | (_, d) :: more => d.depth + 1 + Definitions.depth more

/-- A depth that no chain of nested kinds exceeds. -/
def kindLevels : Nat := 6

/-- How deep the expansion of an annotation can reach: below groups, whose members can be any
    annotations, every definition may add its own depth once. A definition that is met again below
    its own members would be met without end. -/
def expansionDepth (defs : Definitions) (a : Note) : Nat :=
  kindLevels + a.depth + defs.depth

/-- Expands an annotation. -/
def expand (location : String) (defs : Definitions) (a : Note) :
    Except Unexpandable (Expanded Note) :=
  expandTo location (expansionDepth defs a) [] defs a

/-! ## 5. Reading shared lists -/

/-- A list field of a definition. -/
def Definitions.sharedList (defs : Definitions) (origin : String) (f : Field) : Value :=
  match defs.find? origin with
  | some d => d.get f
  | none => .list []

/-- An annotation with the lists it has in common with definitions, as they are now. -/
def Note.settled (defs : Definitions) (a : Note) : Note := a.resolve defs.sharedList

end Marginalia
