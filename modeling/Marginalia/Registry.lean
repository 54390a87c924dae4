import Marginalia.Defaults
import Marginalia.Note.Fault
import Marginalia.Note.Validity

/-!
# What a file declares

The annotations of a file are filed comment by comment:

* a resource or a model opens a new entry, and becomes the one that following APIs or properties
  belong to;
* an annotation with a partial id is a partial definition, whatever its kind; the last definition
  of an id counts, in the place of the first;
* anything else is out of place and only noticed.

Resources and models are validated when they are read, and what is invalid is dropped for good.
-/

namespace Marginalia

/-! ## 1. Partial definitions -/

/-- Partial definitions by id, in the order in which the ids were first defined. -/
abbrev Definitions := List (String × Note)

/-- Defines an id; an id that was defined before keeps its place. -/
def Definitions.put (defs : Definitions) (id : String) (a : Note) : Definitions :=
  if defs.any (·.1 == id) then defs.map fun e => if e.1 == id then (id, a) else e
  else defs ++ [(id, a)]

/-- Whether an id is defined. -/
def Definitions.has (defs : Definitions) (id : String) : Bool := defs.any (·.1 == id)

/-- The definition of an id. -/
def Definitions.find? (defs : Definitions) (id : String) : Option Note := defs.lookup id

/-- What an id finds stands under it. -/
theorem Definitions.mem_of_find? {defs : Definitions} {id : String} {d : Note}
    (h : defs.find? id = some d) : (id, d) ∈ defs := by
  unfold find? at h
  induction defs with
  | nil => cases h
  | cons e defs ih =>
      obtain ⟨k, c⟩ := e
      rw [List.lookup_cons] at h
      cases hk : id == k with
      | true =>
          rw [hk] at h
          cases h
          rw [beq_iff_eq.mp hk]
          exact List.mem_cons_self
      | false =>
          rw [hk] at h
          exact List.mem_cons_of_mem _ (ih h)

/-! ## 2. The registry -/

/-- What has been filed so far. -/
structure Registry where
  resources : List Note
  models : List Note
  definitions : Definitions

namespace Registry

/-- Nothing filed yet. -/
def empty : Registry := ⟨[], [], []⟩

/-- Adds a value to a list field of the last annotation. -/
def pushToLast (f : Field) (v : Value) : List Note → List Note
  | [] => []
  | [a] => [a.push f v]
  | a :: more => a :: pushToLast f v more

/-- Files a resource. -/
def addResource (r : Registry) (a : Note) : Registry := { r with resources := r.resources ++ [a] }

/-- Files a model. -/
def addModel (r : Registry) (a : Note) : Registry := { r with models := r.models ++ [a] }

/-- Files a partial definition. -/
def addDefinition (r : Registry) (id : String) (a : Note) : Registry :=
  { r with definitions := r.definitions.put id a }

/-- The resource that APIs belong to. -/
def currentResource? (r : Registry) : Option Note := r.resources.getLast?

/-- The model that properties belong to. -/
def currentModel? (r : Registry) : Option Note := r.models.getLast?

/-- Resources and models as they were filed. -/
def collected (r : Registry) : List Note := r.resources ++ r.models

/-- Validates the resources. -/
def readResources (location : String) (r : Registry) : List Note × Registry × Log :=
  let (kept, log) := pruneRoots location r.resources
  (kept, { r with resources := kept }, log)

/-- Validates the models. -/
def readModels (location : String) (r : Registry) : List Note × Registry × Log :=
  let (kept, log) := pruneRoots location r.models
  (kept, { r with models := kept }, log)

end Registry

/-! ## 3. Filing annotations -/

/-- The notice about the redefinition of an id. -/
def notUniqueMessage (id : String) : String :=
  "partial=\"" ++ id ++ "\" is not unique. another was found"

/-- The notice about a reference that stands on its own. -/
def loneReferenceMessage : String :=
  "Unexpected \"" ++ Kind.reference.tag ++
    "\", @SWG\\Partial is a pointer to a partial and should be inside another annotation"

/-- The notice about an annotation without the container that it belongs to. -/
def homelessMessage (kind container : Kind) : String :=
  "Unexpected \"" ++ kind.tag ++ "\", should be inside or after a \"" ++ container.name ++
    "\" declaration"

/-- The notice about an annotation that never stands on its own. -/
def misplacedMessage (kind : Kind) : String :=
  "Unexpected \"" ++ kind.tag ++
    "\", Expecting a \"Resource\", \"Model\" or partial declaration"

/-- Where an annotation was filed. -/
inductive Filed where
  /-- As the resource of this number. -/
  | resource (index : Nat)
  /-- As the model of this number. -/
  | model (index : Nat)
  /-- Elsewhere, or nowhere. -/
  | other (a : Note)

/-- Files one annotation. -/
def Registry.file (location : String) (r : Registry) (a : Note) : Registry × Filed × Log :=
  match a.kind, a.partialId with
  | .reference, _ => (r, .other a, notice loneReferenceMessage location)
  | _, some id =>
    (r.addDefinition id a, .other a,
      if r.definitions.has id then notice (notUniqueMessage id) location else [])
  | .resource, none => (r.addResource a, .resource r.resources.length, [])
  | .model, none => (r.addModel a, .model r.models.length, [])
  | .api, none =>
    if r.resources.isEmpty then (r, .other a, notice (homelessMessage .api .resource) location)
    else ({ r with resources := pushToLast .apis (.note a) r.resources }, .other a, [])
  | .property, none =>
    if r.models.isEmpty then (r, .other a, notice (homelessMessage .property .model) location)
    else ({ r with models := pushToLast .properties (.note a) r.models }, .other a, [])
  | kind, none => (r, .other a, notice (misplacedMessage kind) location)

/-- Files annotations one after another. -/
def Registry.fileAll (location : String) (r : Registry) : List Note → Registry × List Filed × Log
  | [] => (r, [], [])
  | a :: more =>
    let (next, filed, log) := r.file location a
    let (last, rest, restLog) := next.fileAll location more
    (last, filed :: rest, log ++ restLog)

/-- An annotation as it is after everything has been filed. -/
def Filed.note (r : Registry) : Filed → Option Note
  | .resource i => r.resources[i]?
  | .model i => r.models[i]?
  | .other a => some a

/-- The resource that is current once annotations have been filed. -/
def Registry.resourceAfter? (r : Registry) (notes : List Note) : Option Note :=
  (notes.reverse.find? fun a => a.kind = .resource && a.partialId.isNone).or r.currentResource?

/-- The outcome of a comment: the registry, the annotations of the comment, and what there is to
    say. -/
structure Routed where
  registry : Registry
  notes : List Note
  log : Log

/-- Files what a comment was read as. Whatever its target says for its annotations is filled in
    first; a comment that cannot be read is a warning and nothing else. -/
def Registry.route (r : Registry) (location comment : String) (target : Target)
    (parsed : Except Fault (List Note)) : Routed :=
  match parsed with
  | .error fault => ⟨r, [], warning fault.message location⟩
  | .ok notes =>
    let path := (r.resourceAfter? notes).bind (·.text? .resourcePath)
    let (last, filed, log) := r.fileAll location (notes.map (·.fillFrom target comment path))
    ⟨last, filed.filterMap (·.note last), log⟩

end Marginalia
