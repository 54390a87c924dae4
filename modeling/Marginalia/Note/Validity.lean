import Marginalia.Diagnostic
import Marginalia.Note.Value

/-!
# Valid annotations

An annotation is valid if it says everything that its kind must say. Below an annotation, members
that are not valid are left out of the lists that are checked; the annotation itself does not
become invalid by that.

Every missing field is a warning, also below an annotation that is itself left out, and every
member left out is a notice behind the warnings about it.
-/

namespace Marginalia

/-- The fields that an annotation must have and does not. -/
def Note.missing (a : Note) : List Field := a.kind.mandatory.filter fun f => (a.get f).isNull

/-- The warning about a missing field. -/
def missingMessage (k : Kind) (f : Field) : String :=
  k.tag ++ " is missing \"" ++ f.spelling ++ "\""

/-- The notice about a member that is left out. -/
def skippedMessage (inner outer : Kind) : String :=
  "Skipped invalid " ++ inner.tag ++ " inside " ++ outer.tag

/-- The warnings about an annotation itself. -/
def Note.missingLog (location : String) (a : Note) : Log :=
  a.missing.flatMap fun f => warning (missingMessage a.kind f) location

/-- Whether an annotation says everything that it must. -/
def Note.isValid (a : Note) : Bool := a.missing.isEmpty

mutual

/-- An annotation without the invalid members below it, and what there is to say about all of
    it. -/
def Note.prune (location : String) : Note → Note × Log
  | ⟨kind, id, refs, fields⟩ =>
    let (kept, log) := pruneSlots location kind fields
    (⟨kind, id, refs, kept⟩, Note.missingLog location ⟨kind, id, refs, fields⟩ ++ log)

/-- The fields of an annotation without invalid members. -/
def pruneSlots (location : String) (owner : Kind) :
    List (Field × Value) → List (Field × Value) × Log
  | [] => ([], [])
  | (f, .list vs) :: es =>
    let (rest, restLog) := pruneSlots location owner es
    if owner.checkedLists.contains f then
      let (kept, log) := pruneItems location owner vs
      ((f, .list kept) :: rest, log ++ restLog)
    else ((f, .list vs) :: rest, restLog)
  | e :: es =>
    let (rest, restLog) := pruneSlots location owner es
    (e :: rest, restLog)

/-- The valid members of a list. -/
def pruneItems (location : String) (owner : Kind) : List Value → List Value × Log
  | [] => ([], [])
  | .note a :: vs =>
    let (kept, log) := a.prune location
    let (rest, restLog) := pruneItems location owner vs
    if a.isValid then (.note kept :: rest, log ++ restLog)
    else (rest, log ++ notice (skippedMessage a.kind owner) location ++ restLog)
  | v :: vs =>
    let (rest, restLog) := pruneItems location owner vs
    (v :: rest, restLog)

end

/-- The valid ones among annotations that stand on their own, pruned, and what there is to say
    about all of them. -/
def pruneRoots (location : String) : List Note → List Note × Log
  | [] => ([], [])
  | a :: more =>
    let (kept, log) := a.prune location
    let (rest, restLog) := pruneRoots location more
    (if a.isValid then kept :: rest else rest, log ++ restLog)

end Marginalia
