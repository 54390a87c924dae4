import Marginalia.Registry
import Marginalia.Proofs.Expansion.Tree

/-!
# What is read is the valid part of what was filed

Reading resources or models validates them: what is incomplete is left out, and every omission is
reported. This module says what that comes to, without following the order in which it happens:

* `Note.Complete`: the annotation says everything that its kind must say;
* `Note.validPart`: the annotation with every list of members below it, at every depth, cut down
  to the complete ones. It is the one function that goes down by its own equation
  (`validPart_eq`), and nothing but these lists differs;
* `Note.descendants`: all annotations in the lists of members, at every depth, with the kind of the
  annotation they are listed in;
* `Log.Accounts`: a log that holds one warning for each field that any of these annotations lacks,
  also below one that is left out, and one notice for each of them that is incomplete.
-/

namespace Marginalia

/-! ## 1. Complete annotations and lists of members -/

/-- The annotation says everything that its kind must say. -/
def Note.Complete (a : Note) : Prop := ∀ f ∈ a.kind.mandatory, a.get f ≠ .null

theorem Note.isValid_iff {a : Note} : a.isValid = true ↔ a.Complete := by
  unfold Note.isValid Note.missing Note.Complete
  rw [List.isEmpty_iff, List.filter_eq_nil_iff]
  refine forall₂_congr fun f _ => ?_
  rw [Value.isNull_iff]

instance (a : Note) : Decidable a.Complete := decidable_of_iff _ Note.isValid_iff

/-- The fields that list members. -/
def Field.listsMembers : Field → Bool
  | .apis | .operations | .parameters | .responseMessages | .properties => true
  | _ => false

/-- Whether a field is one of the lists of members that a kind has. -/
def Kind.listsIn (k : Kind) (f : Field) : Bool := k.fields.contains f && f.listsMembers

/-- The lists that are checked are all the lists of members. -/
theorem Kind.contains_checkedLists (k : Kind) (f : Field) :
    k.checkedLists.contains f = k.listsIn f := by
  cases k <;> cases f <;> rfl

/-- The members that a slot of an annotation lists, if it lists any. -/
def Kind.memberList? (k : Kind) : Field × Value → Option (List Value)
  | (f, .list vs) => if k.listsIn f then some vs else none
  | _ => none

/-- A member stays unless it is an annotation that is not complete. -/
def Value.stays : Value → Bool
  | .note a => decide a.Complete
  | _ => true

/-- A function of annotations as one of members. -/
def Value.onNote (g : Note → Note) : Value → Value
  | .note a => .note (g a)
  | v => v

/-- The annotation with every list of members changed by `g`. -/
def Note.mapMembers (g : List Value → List Value) (a : Note) : Note :=
  { a with fields := a.fields.map fun e =>
      match a.kind.memberList? e with
      | some vs => (e.1, .list (g vs))
      | none => e }

/-- The annotations that an annotation lists as members. -/
def Note.members (a : Note) : List Note :=
  a.fields.flatMap fun e => ((a.kind.memberList? e).getD []).filterMap Value.note?

/-! ## 2. The valid part -/

mutual

/-- The annotation without the incomplete members below it. -/
def Note.validPart : Note → Note
  | ⟨kind, id, refs, fields⟩ => ⟨kind, id, refs, validSlots kind fields⟩

/-- The slots without incomplete members. -/
def validSlots (owner : Kind) : List (Field × Value) → List (Field × Value)
  | [] => []
  | (f, .list vs) :: es =>
    (f, .list (if owner.listsIn f then validItems vs else vs)) :: validSlots owner es
  | e :: es => e :: validSlots owner es

/-- The members that are complete, each without the incomplete members below it. -/
def validItems : List Value → List Value
  | [] => []
  | .note a :: vs => if a.Complete then .note a.validPart :: validItems vs else validItems vs
  | v :: vs => v :: validItems vs

end

theorem validItems_eq (vs : List Value) :
    validItems vs = (vs.filter Value.stays).map (Value.onNote Note.validPart) := by
  induction vs with
  | nil => rw [validItems]; rfl
  | cons v vs ih =>
      cases v with
      | note a =>
          rw [validItems, List.filter_cons, ih]
          by_cases h : a.Complete
          · have hstays : Value.stays (.note a) = true := decide_eq_true h
            rw [if_pos h, if_pos hstays]
            rfl
          · have hstays : ¬Value.stays (.note a) = true := fun hs => h (of_decide_eq_true hs)
            rw [if_neg h, if_neg hstays]
      | _ =>
          rw [validItems, ih]
          · rfl
          · exact nofun

/-- **The equation of the valid part**: each list of members is filtered, its order kept, and then
    each member is replaced by its own valid part; everything else stays. -/
theorem Note.validPart_eq (a : Note) :
    a.validPart =
      a.mapMembers fun vs => (vs.filter Value.stays).map (Value.onNote Note.validPart) := by
  obtain ⟨kind, id, refs, fields⟩ := a
  have hslots : ∀ es : List (Field × Value), validSlots kind es = es.map fun e =>
      match kind.memberList? e with
      | some vs => (e.1, .list ((vs.filter Value.stays).map (Value.onNote Note.validPart)))
      | none => e := by
    intro es
    induction es with
    | nil => rw [validSlots]; rfl
    | cons e es ih =>
        obtain ⟨f, v⟩ := e
        cases v with
        | list vs =>
            rw [validSlots, List.map_cons, ih, validItems_eq, Kind.memberList?]
            cases kind.listsIn f with
            | true => rfl
            | false => rfl
        | _ =>
            rw [validSlots, ih]
            · rfl
            · exact nofun
  rw [Note.validPart, hslots]
  rfl

/-! ## 3. Everything below an annotation -/

mutual

/-- The annotations in the lists of members at every depth, each with the kind of the annotation
    that lists it. -/
def Note.descendants : Note → List (Kind × Note)
  | ⟨kind, _, _, fields⟩ => slotDescendants kind fields

/-- What stands below the slots of an annotation. -/
def slotDescendants (owner : Kind) : List (Field × Value) → List (Kind × Note)
  | [] => []
  | (f, .list vs) :: es =>
    (if owner.listsIn f then itemDescendants owner vs else []) ++ slotDescendants owner es
  | _ :: es => slotDescendants owner es

/-- The members of a list, and what stands below them. -/
def itemDescendants (owner : Kind) : List Value → List (Kind × Note)
  | [] => []
  | .note a :: vs => (owner, a) :: a.descendants ++ itemDescendants owner vs
  | _ :: vs => itemDescendants owner vs

end

theorem itemDescendants_eq (owner : Kind) (vs : List Value) :
    itemDescendants owner vs =
      (vs.filterMap Value.note?).flatMap fun b => (owner, b) :: b.descendants := by
  induction vs with
  | nil => rw [itemDescendants]; rfl
  | cons v vs ih =>
      cases v with
      | note a =>
          rw [itemDescendants, ih]
          rfl
      | _ =>
          rw [itemDescendants, ih]
          · rfl
          · exact nofun

/-- **The equation of what stands below**: each member, and what stands below it. -/
theorem Note.descendants_eq (a : Note) :
    a.descendants = a.members.flatMap fun b => (a.kind, b) :: b.descendants := by
  obtain ⟨kind, id, refs, fields⟩ := a
  rw [Note.descendants]
  show slotDescendants kind fields = (fields.flatMap _).flatMap _
  induction fields with
  | nil => rw [slotDescendants]; rfl
  | cons e es ih =>
      obtain ⟨f, v⟩ := e
      rw [List.flatMap_cons, List.flatMap_append, ← ih]
      cases v with
      | list vs =>
          rw [slotDescendants, Kind.memberList?, itemDescendants_eq]
          cases kind.listsIn f with
          | true => rfl
          | false => rfl
      | _ =>
          rw [slotDescendants]
          · rfl
          · exact nofun

/-- The annotation and all annotations below it. -/
def Note.nodes (a : Note) : List Note := a :: a.descendants.map (·.2)

/-- The warnings about the fields that an annotation must have and does not. -/
def Note.lacks (location : String) (a : Note) : Log :=
  (a.kind.mandatory.filter fun f => (a.get f).isNull).map fun f =>
    ⟨.warning, missingMessage a.kind f, location⟩

/-- The notice about a member that is left out. -/
def skipped (location : String) (member : Kind × Note) : Diagnostic :=
  ⟨.notice, skippedMessage member.2.kind member.1, location⟩

/-- The notices about the incomplete ones among members. -/
def skippedAmong (location : String) (members : List (Kind × Note)) : Log :=
  (members.filter fun m => ¬m.2.Complete).map (skipped location)

/-! ## 4. Accounts -/

/-- The log accounts for members: one warning for each field that one of them lacks, and one notice
    for each one that is incomplete. -/
structure Log.Covers (location : String) (members : List (Kind × Note)) (log : Log) : Prop where
  warnings : log.filter (·.isWarning) = members.flatMap fun m => m.2.lacks location
  notices : (log.filter (!·.isWarning)).Perm (skippedAmong location members)

theorem Log.Covers.nil (location : String) : Log.Covers location [] [] := ⟨rfl, .nil⟩

theorem Log.Covers.append {location : String} {ms ns : List (Kind × Note)} {log more : Log}
    (h : log.Covers location ms) (h' : more.Covers location ns) :
    (log ++ more).Covers location (ms ++ ns) where
  warnings := by rw [List.filter_append, List.flatMap_append, h.warnings, h'.warnings]
  notices := by
    unfold skippedAmong
    rw [List.filter_append, List.filter_append, List.map_append]
    exact h.notices.append h'.notices

theorem Note.missingLog_eq (location : String) (a : Note) :
    a.missingLog location = a.lacks location := by
  unfold Note.missingLog Note.lacks
  rw [List.map_eq_flatMap]
  rfl

theorem Note.filter_lacks (location : String) (a : Note) :
    (a.lacks location).filter (·.isWarning) = a.lacks location ∧
      (a.lacks location).filter (!·.isWarning) = [] := by
  have hall : ∀ d ∈ a.lacks location, d.isWarning = true := by
    intro d hd
    obtain ⟨f, -, rfl⟩ := List.mem_map.mp hd
    rfl
  refine ⟨List.filter_eq_self.mpr hall, List.filter_eq_nil_iff.mpr fun d hd => ?_⟩
  rw [hall d hd]
  exact Bool.false_ne_true

/-- A member is covered by what is said about it, about what stands below it, and, if it is left
    out, by the notice behind that. -/
theorem Log.Covers.member {location : String} {a : Note} {log : Log}
    (h : log.Covers location a.descendants) (owner : Kind) :
    (a.lacks location ++ log ++
      if a.Complete then [] else [skipped location (owner, a)]).Covers location
        ((owner, a) :: a.descendants) where
  warnings := by
    rw [List.filter_append, List.filter_append, (a.filter_lacks location).1, h.warnings]
    split
    · exact List.append_nil _
    · exact List.append_nil _
  notices := by
    rw [List.filter_append, List.filter_append, (a.filter_lacks location).2, List.nil_append]
    unfold skippedAmong
    rw [List.filter_cons]
    split
    · rename_i hc
      rw [if_neg (by simpa using hc), List.filter_nil, List.append_nil]
      exact h.notices
    · rename_i hc
      rw [if_pos (by simpa using hc), List.map_cons]
      exact (List.perm_append_singleton _ _).trans (h.notices.cons _)

/-! ## 5. Validation -/

mutual

/-- **Validation keeps the valid part.** -/
theorem Note.prune_fst (location : String) : ∀ a : Note, (a.prune location).1 = a.validPart
  | ⟨kind, id, refs, fields⟩ => by
      rw [Note.prune, Note.validPart, ← pruneSlots_fst location kind fields]

theorem pruneSlots_fst (location : String) (owner : Kind) :
    ∀ es : List (Field × Value), (pruneSlots location owner es).1 = validSlots owner es
  | [] => by rw [pruneSlots, validSlots]
  | (f, v) :: es => by
      have hes := pruneSlots_fst location owner es
      cases v with
      | list vs =>
          rw [pruneSlots, validSlots, ← hes, ← pruneItems_fst location owner vs,
            Kind.contains_checkedLists]
          cases owner.listsIn f with
          | true => rfl
          | false => rfl
      | _ => rw [pruneSlots, validSlots, ← hes] <;> exact nofun

theorem pruneItems_fst (location : String) (owner : Kind) :
    ∀ vs : List Value, (pruneItems location owner vs).1 = validItems vs
  | [] => by rw [pruneItems, validItems]
  | v :: vs => by
      have hvs := pruneItems_fst location owner vs
      cases v with
      | note a =>
          rw [pruneItems, validItems, ← hvs, ← Note.prune_fst location a]
          by_cases h : a.Complete
          · rw [if_pos h]
            dsimp only
            rw [if_pos (Note.isValid_iff.mpr h)]
          · rw [if_neg h]
            dsimp only
            rw [if_neg fun hv => h (Note.isValid_iff.mp hv)]
      | _ => rw [pruneItems, validItems, ← hvs] <;> exact nofun

end

mutual

/-- What validation says below an annotation covers what stands below it. -/
theorem Note.prune_covers (location : String) :
    ∀ a : Note, ∃ log : Log, (a.prune location).2 = a.lacks location ++ log ∧
      log.Covers location a.descendants
  | ⟨kind, id, refs, fields⟩ => by
      refine ⟨_, ?_, pruneSlots_covers location kind fields⟩
      rw [Note.prune, ← Note.missingLog_eq]

theorem pruneSlots_covers (location : String) (owner : Kind) :
    ∀ es : List (Field × Value),
      (pruneSlots location owner es).2.Covers location (slotDescendants owner es)
  | [] => by
      rw [pruneSlots, slotDescendants]
      exact .nil location
  | (f, v) :: es => by
      have hes := pruneSlots_covers location owner es
      cases v with
      | list vs =>
          have hvs := pruneItems_covers location owner vs
          rw [pruneSlots, slotDescendants, Kind.contains_checkedLists]
          cases owner.listsIn f with
          | true => exact hvs.append hes
          | false => exact hes
      | _ =>
          rw [pruneSlots, slotDescendants]
          · exact hes
          all_goals exact nofun

theorem pruneItems_covers (location : String) (owner : Kind) :
    ∀ vs : List Value,
      (pruneItems location owner vs).2.Covers location (itemDescendants owner vs)
  | [] => by
      rw [pruneItems, itemDescendants]
      exact .nil location
  | v :: vs => by
      have hvs := pruneItems_covers location owner vs
      cases v with
      | note a =>
          obtain ⟨log, hlog, hcovers⟩ := Note.prune_covers location a
          have hmember := (hcovers.member owner).append hvs
          rw [pruneItems, itemDescendants]
          dsimp only
          rw [hlog]
          by_cases h : a.Complete
          · rw [if_pos (Note.isValid_iff.mpr h)]
            rw [if_pos h, List.append_nil] at hmember
            exact hmember
          · rw [if_neg fun hv => h (Note.isValid_iff.mp hv)]
            rw [if_neg h] at hmember
            exact hmember
      | _ =>
          rw [pruneItems, itemDescendants]
          · exact hvs
          all_goals exact nofun

end

/-! ## 6. Reading -/

/-- **The log accounts for annotations**: one warning for each field that one of them or one below
    them lacks, and one notice for each one below them that is incomplete. -/
structure Log.Accounts (location : String) (roots : List Note) (log : Log) : Prop where
  warnings : log.filter (·.isWarning) =
    (roots.flatMap Note.nodes).flatMap (Note.lacks location)
  notices : (log.filter (!·.isWarning)).Perm
    (skippedAmong location (roots.flatMap Note.descendants))

theorem pruneRoots_fst (location : String) (roots : List Note) :
    (pruneRoots location roots).1 = (roots.filter fun a => a.Complete).map Note.validPart := by
  induction roots with
  | nil => rfl
  | cons a roots ih =>
      rw [pruneRoots, List.filter_cons]
      dsimp only
      rw [ih, Note.prune_fst]
      by_cases h : a.Complete
      · rw [if_pos (Note.isValid_iff.mpr h), if_pos (decide_eq_true h)]
        rfl
      · rw [if_neg fun hv => h (Note.isValid_iff.mp hv), if_neg fun hd => h (of_decide_eq_true hd)]

theorem pruneRoots_accounts (location : String) (roots : List Note) :
    (pruneRoots location roots).2.Accounts location roots := by
  induction roots with
  | nil => exact ⟨rfl, .nil⟩
  | cons a roots ih =>
      obtain ⟨log, hlog, hcovers⟩ := a.prune_covers location
      have hnodes : (a.descendants.map (·.2)).flatMap (Note.lacks location) =
          a.descendants.flatMap fun m => m.2.lacks location := List.flatMap_map _ _ _
      rw [pruneRoots]
      dsimp only
      rw [hlog]
      constructor
      · rw [List.filter_append, List.filter_append, (a.filter_lacks location).1, hcovers.warnings,
          ih.warnings, List.flatMap_cons, List.flatMap_append, Note.nodes, List.flatMap_cons,
          hnodes]
      · rw [List.filter_append, List.filter_append, (a.filter_lacks location).2, List.nil_append,
          List.flatMap_cons, skippedAmong, List.filter_append, List.map_append]
        exact hcovers.notices.append ih.notices

/-- **What is read is exactly the valid part of what was filed, and the log accounts for all of
    it.** The resources that are read are the complete ones, in order, each cut down to its valid
    part, and so are the models; they are also what stays filed. The valid part of an annotation is
    given by its equation: in every list of members the incomplete ones are left out, and nothing
    else changes. -/
theorem read_valid_part (location : String) (r : Registry) :
    (∀ a : Note, a.validPart = a.mapMembers fun vs =>
      (vs.filter Value.stays).map (Value.onNote Note.validPart)) ∧
    (∀ a : Note, a.descendants = a.members.flatMap fun b => (a.kind, b) :: b.descendants) ∧
    (∃ log, log.Accounts location r.resources ∧
      r.readResources location =
        let read := (r.resources.filter fun a => a.Complete).map Note.validPart
        (read, { r with resources := read }, log)) ∧
    (∃ log, log.Accounts location r.models ∧
      r.readModels location =
        let read := (r.models.filter fun a => a.Complete).map Note.validPart
        (read, { r with models := read }, log)) := by
  refine ⟨Note.validPart_eq, Note.descendants_eq, ⟨_, pruneRoots_accounts location r.resources, ?_⟩,
    ⟨_, pruneRoots_accounts location r.models, ?_⟩⟩
  · rw [← pruneRoots_fst location r.resources]
    rfl
  · rw [← pruneRoots_fst location r.models]
    rfl

end Marginalia
