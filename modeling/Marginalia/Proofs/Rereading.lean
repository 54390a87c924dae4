import Marginalia.Proofs.Note.ValidPart

/-!
# Reading at any time

A registry is validated when it is read, and what is invalid is dropped for good. So a read changes
what is filed, and says something about it; more may be filed afterwards, and read again. This
module says that none of that can be seen in the end:

* `Note.prune_validPart`: what has been validated once is left alone by validation, and nothing is
  said about it any more;
* `Registry.Catches`: a registry that was read in between, with what was said so far, beside one
  that was not. Both come to the same views, and what is still to be said about the first makes up
  the difference. `Catches.file` and `Catches.reread` are one call, `Catches.perform` any number;
* `views_independent_of_reads`: so the final views and all that was said, counted without its
  order, do not depend on when and how often the registry was read before.

Annotations are values: nobody but the registry can change what has been filed.
-/

namespace Marginalia

/-! ## 1. Validation of what is valid -/

/-- Whether anything is said in a field is not changed by leaving members out. -/
theorem isNull_lookup_validSlots (owner : Kind) (f : Field) (es : List (Field × Value)) :
    (((validSlots owner es).lookup f).getD .null).isNull = ((es.lookup f).getD .null).isNull := by
  induction es with
  | nil => rw [validSlots]
  | cons e es ih =>
      obtain ⟨g, v⟩ := e
      cases v with
      | list vs =>
          rw [validSlots, List.lookup_cons, List.lookup_cons]
          cases f == g with
          | true => rfl
          | false => exact ih
      | _ =>
          rw [validSlots]
          · rw [List.lookup_cons, List.lookup_cons]
            cases f == g with
            | true => rfl
            | false => exact ih
          · rintro _ _ ⟨⟩

/-- The valid part lacks the fields that the annotation itself lacks. -/
theorem Note.missing_validPart (a : Note) : a.validPart.missing = a.missing := by
  obtain ⟨kind, id, refs, fields⟩ := a
  rw [Note.validPart]
  refine List.filter_congr fun f _ => ?_
  exact isNull_lookup_validSlots kind f fields

theorem Note.missingLog_validPart (location : String) (a : Note) :
    a.validPart.missingLog location = a.missingLog location := by
  have hkind : a.validPart.kind = a.kind := by
    obtain ⟨kind, id, refs, fields⟩ := a
    rw [Note.validPart]
  unfold Note.missingLog
  rw [Note.missing_validPart, hkind]

theorem Note.isValid_validPart (a : Note) : a.validPart.isValid = a.isValid := by
  unfold Note.isValid
  rw [Note.missing_validPart]

/-- Nothing is said about an annotation that is complete. -/
theorem Note.missingLog_of_complete (location : String) {a : Note} (h : a.Complete) :
    a.missingLog location = [] := by
  have hmissing : a.missing = [] := List.isEmpty_iff.mp (Note.isValid_iff.mpr h)
  unfold Note.missingLog
  rw [hmissing]
  rfl

mutual

/-- **Validation leaves the valid part alone**, and has nothing to say but what the annotation
    itself lacks. -/
theorem Note.prune_validPart (location : String) :
    ∀ a : Note, a.validPart.prune location = (a.validPart, a.missingLog location)
  | ⟨kind, id, refs, fields⟩ => by
      have hslots := pruneSlots_validSlots location kind fields
      have hlog := Note.missingLog_validPart location ⟨kind, id, refs, fields⟩
      rw [Note.validPart] at hlog ⊢
      rw [Note.prune, hslots, hlog]
      dsimp only
      rw [List.append_nil]

theorem pruneSlots_validSlots (location : String) (owner : Kind) :
    ∀ es : List (Field × Value),
      pruneSlots location owner (validSlots owner es) = (validSlots owner es, [])
  | [] => by rw [validSlots, pruneSlots]
  | (f, v) :: es => by
      have hes := pruneSlots_validSlots location owner es
      cases v with
      | list vs =>
          have hvs := pruneItems_validItems location owner vs
          rw [validSlots, pruneSlots, hes, Kind.contains_checkedLists]
          cases owner.listsIn f with
          | true =>
              simp only [if_true]
              rw [hvs]
              rfl
          | false => rfl
      | _ =>
          rw [validSlots]
          · rw [pruneSlots]
            · rw [hes]
            · rintro _ _ ⟨⟩
          · rintro _ _ ⟨⟩

theorem pruneItems_validItems (location : String) (owner : Kind) :
    ∀ vs : List Value, pruneItems location owner (validItems vs) = (validItems vs, [])
  | [] => by rw [validItems, pruneItems]
  | v :: vs => by
      have hvs := pruneItems_validItems location owner vs
      cases v with
      | note a =>
          rw [validItems]
          by_cases h : a.Complete
          · have hvalid : a.validPart.isValid = true :=
              (Note.isValid_validPart a).trans (Note.isValid_iff.mpr h)
            rw [if_pos h, pruneItems, Note.prune_validPart location a, hvs]
            dsimp only
            rw [if_pos hvalid, Note.missingLog_of_complete location h]
            rfl
          · rw [if_neg h]
            exact hvs
      | _ =>
          rw [validItems]
          · rw [pruneItems]
            · rw [hvs]
            · rintro _ ⟨⟩
          · rintro _ ⟨⟩

end

/-! ## 2. Validation of rows -/

theorem pruneRoots_append (location : String) (xs ys : List Note) :
    pruneRoots location (xs ++ ys) =
      ((pruneRoots location xs).1 ++ (pruneRoots location ys).1,
        (pruneRoots location xs).2 ++ (pruneRoots location ys).2) := by
  induction xs with
  | nil => rfl
  | cons a xs ih =>
      rw [List.cons_append, pruneRoots, pruneRoots, ih]
      dsimp only
      rw [List.append_assoc]
      split
      · rfl
      · rfl

/-- **What has been read once is read as it is**, and nothing is said about it. -/
theorem pruneRoots_again (location : String) (xs : List Note) :
    pruneRoots location (pruneRoots location xs).1 = ((pruneRoots location xs).1, []) := by
  induction xs with
  | nil => rfl
  | cons a xs ih =>
      rw [pruneRoots]
      dsimp only
      by_cases h : a.isValid = true
      · have hvalid : a.validPart.isValid = true := (Note.isValid_validPart a).trans h
        have hlog := Note.missingLog_of_complete location (Note.isValid_iff.mp h)
        rw [if_pos h, pruneRoots, Note.prune_fst, Note.prune_validPart, ih, hlog]
        dsimp only
        rw [if_pos hvalid]
        rfl
      · rw [if_neg h]
        exact ih

/-! ## 3. Calls -/

/-- What is done with a registry: something is filed, or one of its views is read. -/
inductive Registry.Call where
  | addResource (a : Note)
  | addModel (a : Note)
  | addDefinition (id : String) (a : Note)
  | readResources
  | readModels

/-- Whether a call files something. -/
def Registry.Call.files : Registry.Call → Bool
  | .addResource _ | .addModel _ | .addDefinition _ _ => true
  | .readResources | .readModels => false

namespace Registry

variable (location : String)

/-- What a call does: the registry behind it, and what it says. -/
def call (r : Registry) : Call → Registry × Log
  | .addResource a => (r.addResource a, [])
  | .addModel a => (r.addModel a, [])
  | .addDefinition id a => (r.addDefinition id a, [])
  | .readResources => (r.readResources location).2
  | .readModels => (r.readModels location).2

/-- Calls, one after another. -/
def perform (r : Registry) : List Call → Registry × Log
  | [] => (r, [])
  | c :: more =>
    let (next, log) := r.call location c
    let (last, rest) := next.perform more
    (last, log ++ rest)

/-- What is seen of a registry: its views, and all that was said up to the end of reading them. -/
structure Shown where
  resources : List Note
  models : List Note
  log : Log

/-- Performs calls, and then reads both views. -/
def showAfter (r : Registry) (calls : List Call) : Registry × Shown :=
  let (behind, said) := r.perform location calls
  let (resources, next, resourceLog) := behind.readResources location
  let (models, last, modelLog) := next.readModels location
  (last, ⟨resources, models, said ++ resourceLog ++ modelLog⟩)

/-! ## 4. A registry that was read in between -/

/-- What reading both views of a registry would say. -/
def unsaid (r : Registry) : Log :=
  (pruneRoots location r.resources).2 ++ (pruneRoots location r.models).2

/-- **A registry that was read in between catches up with one that was not**: their views come to
    the same, and what was said so far with what is still unsaid is what is unsaid of the other. -/
structure Catches (said : Log) (read unread : Registry) : Prop where
  resources : (pruneRoots location read.resources).1 = (pruneRoots location unread.resources).1
  models : (pruneRoots location read.models).1 = (pruneRoots location unread.models).1
  definitions : read.definitions = unread.definitions
  log : (said ++ read.unsaid location).Perm (unread.unsaid location)

variable {location}

theorem Catches.refl (r : Registry) : r.Catches location [] r := ⟨rfl, rfl, rfl, .refl _⟩

section Step

variable {said : Log} {read unread : Registry} (h : Catches location said read unread)

include h

/-- The same thing is filed in both. -/
theorem Catches.file {c : Call} (hc : c.files = true) :
    Catches location (said ++ (read.call location c).2) (read.call location c).1
      (unread.call location c).1 := by
  -- what is filed comes last in both rows, so both views and both logs grow by the same
  have hcount := fun d => h.log.count_eq d
  simp only [unsaid, List.count_append] at hcount
  cases c with
  | addResource a =>
      refine ⟨?_, h.models, h.definitions, List.perm_iff_count.mpr fun d => ?_⟩
      · simp only [call, addResource, pruneRoots_append, h.resources]
      · have hd := hcount d
        simp only [call, addResource, unsaid, pruneRoots_append, List.count_append,
          List.count_nil]
        omega
  | addModel a =>
      refine ⟨h.resources, ?_, h.definitions, List.perm_iff_count.mpr fun d => ?_⟩
      · simp only [call, addModel, pruneRoots_append, h.models]
      · have hd := hcount d
        simp only [call, addModel, unsaid, pruneRoots_append, List.count_append, List.count_nil]
        omega
  | addDefinition id a =>
      refine ⟨h.resources, h.models, congrArg (·.put id a) h.definitions, ?_⟩
      show (said ++ [] ++ read.unsaid location).Perm (unread.unsaid location)
      rw [List.append_nil]
      exact h.log
  | readResources | readModels => cases hc

/-- Only the first one is read: what reading says is no longer unsaid. -/
theorem Catches.reread {c : Call} (hc : c.files = false) :
    Catches location (said ++ (read.call location c).2) (read.call location c).1 unread := by
  have hcount := fun d => h.log.count_eq d
  simp only [unsaid, List.count_append] at hcount
  cases c with
  | addResource | addModel | addDefinition => cases hc
  | readResources =>
      refine ⟨?_, h.models, h.definitions, List.perm_iff_count.mpr fun d => ?_⟩
      · simp only [call, readResources, pruneRoots_again, h.resources]
      · have hd := hcount d
        simp only [call, readResources, unsaid, pruneRoots_again, List.count_append,
          List.count_nil]
        omega
  | readModels =>
      refine ⟨h.resources, ?_, h.definitions, List.perm_iff_count.mpr fun d => ?_⟩
      · simp only [call, readModels, pruneRoots_again, h.models]
      · have hd := hcount d
        simp only [call, readModels, unsaid, pruneRoots_again, List.count_append, List.count_nil]
        omega

end Step

/-- **Any calls on the first registry, and only what is filed among them on the other.** -/
theorem Catches.perform {said : Log} {read unread : Registry}
    (h : Catches location said read unread) (calls : List Call) :
    Catches location (said ++ (read.perform location calls).2) (read.perform location calls).1
      (unread.perform location (calls.filter Call.files)).1 := by
  induction calls generalizing said read unread with
  | nil =>
      rw [List.filter_nil, Registry.perform, Registry.perform, List.append_nil]
      exact h
  | cons c calls ih =>
      rw [Registry.perform]
      dsimp only
      rw [← List.append_assoc]
      cases hc : c.files with
      | true =>
          rw [List.filter_cons_of_pos hc, Registry.perform]
          exact ih (h.file hc)
      | false =>
          rw [List.filter_cons_of_neg (by rw [hc]; exact Bool.false_ne_true)]
          exact ih (h.reread hc)

/-- Filing says nothing. -/
theorem log_perform_files (location : String) (r : Registry) (calls : List Call) :
    (r.perform location (calls.filter Call.files)).2 = [] := by
  induction calls generalizing r with
  | nil => rfl
  | cons c calls ih =>
      rw [List.filter_cons]
      split
      · rename_i hc
        rw [Registry.perform]
        dsimp only
        rw [ih, List.append_nil]
        cases c with
        | addResource | addModel | addDefinition => rfl
        | readResources | readModels => cases hc
      · exact ih r

/-- What is shown, out of the rows that are filed in the end. -/
theorem showAfter_eq (r : Registry) (calls : List Call) :
    r.showAfter location calls =
      let behind := r.perform location calls
      let resources := (pruneRoots location behind.1.resources).1
      let models := (pruneRoots location behind.1.models).1
      (⟨resources, models, behind.1.definitions⟩,
        ⟨resources, models, behind.2 ++ behind.1.unsaid location⟩) := by
  refine Prod.ext rfl ?_
  exact congrArg (Shown.mk _ _) (List.append_assoc _ _ _)

end Registry

/-! ## 5. The main statement -/

/-- **What is seen of a registry does not depend on earlier reads.** Whatever is filed, and whenever
    and however often the views are read in between: both views in the end are what they are if
    everything is filed first, in the same order, and each view is then read once. The same things
    are said, equally often, and the same stays filed. A view that has been read is read
    again as the same list, and nothing is said about it. -/
theorem views_independent_of_reads (location : String) (r : Registry) (calls : List Registry.Call) :
    let read := r.showAfter location calls
    let unread := r.showAfter location (calls.filter Registry.Call.files)
    read.2.resources = unread.2.resources ∧ read.2.models = unread.2.models ∧
      read.2.log.Perm unread.2.log ∧ read.1 = unread.1 ∧
      (∀ s : Registry, (s.readResources location).2.1.readResources location =
        ((s.readResources location).1, (s.readResources location).2.1, [])) ∧
      ∀ s : Registry, (s.readModels location).2.1.readModels location =
        ((s.readModels location).1, (s.readModels location).2.1, []) := by
  have hstart : Registry.Catches location [] r r := .refl r
  have hcatches := hstart.perform calls
  rw [List.nil_append] at hcatches
  have hlog := Registry.log_perform_files location r calls
  refine ⟨hcatches.resources, hcatches.models, ?_, ?_, fun s => ?_, fun s => ?_⟩
  · rw [Registry.showAfter_eq, Registry.showAfter_eq]
    dsimp only
    rw [hlog, List.nil_append]
    exact hcatches.log
  · rw [Registry.showAfter_eq, Registry.showAfter_eq]
    dsimp only
    rw [hcatches.resources, hcatches.models, hcatches.definitions]
  · simp only [Registry.readResources, pruneRoots_again]
  · simp only [Registry.readModels, pruneRoots_again]

end Marginalia
