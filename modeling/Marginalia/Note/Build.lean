import Marginalia.Note.Check

/-!
# Building an annotation from its arguments

The arguments of an annotation are read from left to right:

* a named argument sets an attribute, the last one of a name counts;
* a reference to a partial definition is noted, unless it names none;
* a nested annotation goes to the field that the outer kind has for it, a group as its members;
* any other value without a name goes to the default field of the kind, if there is one.

What has been gathered is then checked as a whole (`Kind.check`).
-/

namespace Marginalia

/-- An argument of an annotation. -/
inductive Argument where
  | named (name : String) (value : Value)
  | positional (value : Value)

/-- What has been gathered from arguments. -/
structure Gathered where
  /-- The attributes, in the order in which they were first named. -/
  attributes : List (Key × Value)
  /-- The ids of partial definitions referred to. -/
  references : List String

/-- Nothing gathered yet. -/
def Gathered.empty : Gathered := ⟨[], []⟩

/-- Sets an attribute. -/
def Gathered.put (g : Gathered) (name : String) (v : Value) : Gathered :=
  { g with attributes := putEntry g.attributes (.text name) v }

/-- Adds values to an attribute that holds a list; an attribute not yet named starts as one. -/
def Gathered.extend (g : Gathered) (name : String) (vs : List Value) : Except Fault Gathered :=
  match g.attributes.lookup (.text name) with
  | none => .ok (g.put name (.list vs))
  | some (.list ws) => .ok (g.put name (.list (ws ++ vs)))
  | some other => .error (.notExtensible other.typeName)

/-- The annotations that a nested annotation stands for: a group for its members. -/
def Note.unwrapped (a : Note) : List Value :=
  if a.kind.isGroup then (a.get .members).items else [.note a]

/-- Gathers one nested annotation. -/
def Gathered.nest (outer : Kind) (g : Gathered) (inner : Note) : Except Fault Gathered :=
  if inner.kind = .reference then
    match inner.text? .value with
    | some id => .ok (if id = "" then g else { g with references := g.references ++ [id] })
    | none => .ok g
  else match outer.nestField? inner.kind with
    | none => .error (.misplaced inner.kind outer)
    | some f =>
      if f.alwaysList then g.extend f.key inner.unwrapped
      else .ok (g.put f.key (.note inner))

/-- Gathers one argument. -/
def Gathered.add (k : Kind) (g : Gathered) : Argument → Except Fault Gathered
  | .named name v => .ok (g.put name v)
  | .positional (.note inner) => g.nest k inner
  | .positional v => match k.defaultField? with
    | some f => .ok (g.put f.key v)
    | none => .error (.unnamedValue k)

/-- Gathers arguments from left to right. -/
def Gathered.addAll (k : Kind) : Gathered → List Argument → Except Fault Gathered
  | g, [] => .ok g
  | g, arg :: more => match g.add k arg with
    | .ok next => next.addAll k more
    | .error fault => .error fault

/-- Builds an annotation of a kind from its arguments. -/
def Note.build (k : Kind) (arguments : List Argument) : Except Fault Note :=
  match Gathered.addAll k .empty arguments with
  | .error fault => .error fault
  | .ok g => match k.check g.attributes with
    | .error faults => .error (.invalid k faults)
    | .ok a => .ok { a with partials := a.partials ++ g.references }

end Marginalia
