import Marginalia.Proofs.Note.Assembly

/-!
# Checking the printed form of an annotation

An annotation is printed as a map (`Note.dump`), which loses what ties it to other definitions: its
own id, its references and where it was declared. Checking the map as an annotation of the same kind
gives everything else back (`check_dumpFields`):

* `Value.Unannotated`: the untyped values that are printed as they are, with nulls wherever they
  stand;
* `Note.untied`: the annotation without its ties, at every depth. It is printed in the same way
  (`Note.dumpFields_untied`);
* `Shape.Restores`: a value of this shape fits again once it is printed. A map of the printed fields
  tells what the annotation is (`Note.dumpFields_tells`) if its slots fit again.

Groups are left out: the check takes any members, so theirs would stay maps.
-/

namespace Marginalia

/-! ## 1. Untyped values -/

/-- **There is no annotation in the value**, at any depth, and nothing that stands for one. -/
inductive Value.Unannotated : Value → Prop
  | null : Unannotated .null
  | bool (b : Bool) : Unannotated (.bool b)
  | int (n : Int) : Unannotated (.int n)
  | real (x : Number.Binary64) : Unannotated (.real x)
  | text (s : String) : Unannotated (.text s)
  | list {vs : List Value} (items : ∀ v ∈ vs, Unannotated v) : Unannotated (.list vs)
  | pair {name : String} {v : Value} (value : Unannotated v) : Unannotated (.pair name v)
  | map {es : List (Key × Value)} (entries : ∀ e ∈ es, Unannotated e.2) : Unannotated (.map es)

/-- Any whole number, any reference, and no annotation where any value can stand. -/
def Leaves.unannotated : Leaves := ⟨fun _ => True, fun _ => True, Value.Unannotated⟩

theorem dumpItems_eq_map (vs : List Value) : dumpItems vs = vs.map Value.dump := by
  induction vs with
  | nil => rw [dumpItems, List.map_nil]
  | cons v vs ih => rw [dumpItems, ih, List.map_cons]

theorem dumpEntries_eq_map (es : List (Key × Value)) :
    dumpEntries es = es.map fun e => (e.1, e.2.dump) := by
  induction es with
  | nil => rw [dumpEntries, List.map_nil]
  | cons e es ih =>
      obtain ⟨key, v⟩ := e
      rw [dumpEntries, ih, List.map_cons]

/-- A value without annotations is printed as it is. -/
theorem Value.Unannotated.dump_eq {v : Value} (h : v.Unannotated) : v.dump = v := by
  induction h with
  | @list vs items ih =>
      rw [Value.dump, dumpItems_eq_map, List.map_congr_left ih, List.map_id']
  | pair value ih => rw [Value.dump, ih]
  | @map es entries ih =>
      have hentries : es.map (fun e => (e.1, e.2.dump)) = es := by
        refine (List.map_congr_left fun e he => ?_).trans (List.map_id _)
        rw [ih e he]
        rfl
      rw [Value.dump, dumpEntries_eq_map, hentries]
  | _ => rfl

theorem Value.dump_eq_null_iff {v : Value} : v.dump = .null ↔ v = .null := by
  cases v <;> simp [Value.dump]

/-! ## 2. Annotations without ties -/

mutual

/-- A value whose annotations are without ties. -/
def Value.untied : Value → Value
  | .list vs => .list (untiedItems vs)
  | .note a => .note a.untied
  | v => v

/-- **The annotation without its ties**, at every depth: no id, no references, and nothing about
    where it was declared. -/
def Note.untied : Note → Note
  | ⟨k, _, _, fields⟩ => ⟨k, none, [], untiedSlots fields⟩

/-- `Value.untied` on list items. -/
def untiedItems : List Value → List Value
  | [] => []
  | v :: vs => v.untied :: untiedItems vs

/-- `Value.untied` on fields, of which those that are internal say nothing. -/
def untiedSlots : List (Field × Value) → List (Field × Value)
  | [] => []
  | (f, v) :: es => (f, if f.isInternal then .null else v.untied) :: untiedSlots es

end

theorem untiedItems_eq_map (vs : List Value) : untiedItems vs = vs.map Value.untied := by
  induction vs with
  | nil => rw [untiedItems, List.map_nil]
  | cons v vs ih => rw [untiedItems, ih, List.map_cons]

/-- A slot without ties. -/
def untiedSlot (e : Field × Value) : Field × Value :=
  (e.1, if e.1.isInternal then .null else e.2.untied)

theorem untiedSlots_eq_map (slots : List (Field × Value)) :
    untiedSlots slots = slots.map untiedSlot := by
  induction slots with
  | nil => rw [untiedSlots, List.map_nil]
  | cons e slots ih =>
      obtain ⟨f, v⟩ := e
      rw [untiedSlots, ih, List.map_cons, untiedSlot]

theorem Value.Unannotated.untied_eq {v : Value} (h : v.Unannotated) : v.untied = v := by
  induction h with
  | @list vs items ih =>
      rw [Value.untied, untiedItems_eq_map, List.map_congr_left ih, List.map_id']
  | _ => rfl

theorem Value.isNull_untied (v : Value) : v.untied.isNull = v.isNull := by
  cases v <;> rfl

theorem Note.kind_untied (a : Note) : a.untied.kind = a.kind := by
  cases a
  rw [Note.untied]

theorem Note.fields_untied (a : Note) : a.untied.fields = a.fields.map untiedSlot := by
  cases a
  rw [Note.untied, untiedSlots_eq_map]

theorem Note.keys_untied (a : Note) : a.untied.keys = a.keys := by
  unfold Note.keys
  rw [Note.fields_untied, List.map_map]
  rfl

mutual

theorem Value.dump_untied : ∀ v : Value, v.untied.dump = v.dump
  | .list vs => by rw [Value.untied, Value.dump, dumpItems_untied vs, Value.dump]
  | .note a => by rw [Value.untied, Value.dump, Note.dumpFields_untied a, Value.dump]
  | .null | .bool _ | .int _ | .real _ | .text _ | .pair _ _ | .map _ | .foreign
  | .shared _ _ => rfl

/-- **Without its ties an annotation is printed in the same way.** -/
theorem Note.dumpFields_untied : ∀ a : Note, a.untied.dumpFields = a.dumpFields
  | ⟨_, _, _, fields⟩ => by
      rw [Note.untied, Note.dumpFields, dumpSlots_untied fields, Note.dumpFields]

theorem dumpItems_untied : ∀ vs : List Value, dumpItems (untiedItems vs) = dumpItems vs
  | [] => by rw [untiedItems]
  | v :: vs => by
      rw [untiedItems, dumpItems, dumpItems, Value.dump_untied v, dumpItems_untied vs]

theorem dumpSlots_untied : ∀ slots : List (Field × Value),
    dumpSlots (untiedSlots slots) = dumpSlots slots
  | [] => by rw [untiedSlots]
  | (f, v) :: slots => by
      rw [untiedSlots, dumpSlots, dumpSlots, dumpSlots_untied slots]
      cases f.isInternal with
      | true => rfl
      | false =>
          rw [if_neg Bool.false_ne_true, Value.isNull_untied, Value.dump_untied v]

end

/-! ## 3. The printed fields tell what the annotation is -/

/-- What is printed of an annotation are the fields that say something, unless they are internal. -/
theorem mem_dumpSlots {slots : List (Field × Value)} {e : Key × Value} :
    e ∈ dumpSlots slots ↔ ∃ d ∈ slots, (d.1.isInternal = false ∧ d.2 ≠ .null) ∧
      e = (.text d.1.spelling, d.2.dump) := by
  induction slots with
  | nil =>
      rw [dumpSlots]
      exact ⟨nofun, fun ⟨d, hd, _⟩ => nomatch hd⟩
  | cons d slots ih =>
      obtain ⟨f, v⟩ := d
      simp only [dumpSlots, List.mem_cons, or_and_right, exists_or, exists_eq_left]
      by_cases hprinted : f.isInternal = false ∧ v ≠ .null
      · have hskip : ¬(f.isInternal || v.isNull) = true := by
          rw [hprinted.1, Bool.false_or, Value.isNull_iff]
          exact hprinted.2
        rw [if_neg hskip, List.mem_cons, ih]
        exact or_congr_left (and_iff_right hprinted).symm
      · have hskip : (f.isInternal || v.isNull) = true := by
          refine Decidable.byContradiction fun hneither => ?_
          rw [Bool.or_eq_true, Value.isNull_iff] at hneither
          obtain ⟨hinternal, hnull⟩ := not_or.mp hneither
          exact hprinted ⟨Bool.eq_false_iff.mpr hinternal, hnull⟩
        rw [if_pos hskip, ih]
        exact (or_iff_right fun h => hprinted h.1).symm

/-- Where a model was declared is no list. -/
theorem Field.alwaysList_of_isInternal {f : Field} (h : f.isInternal = true) :
    f.alwaysList = false := by
  cases f <;> first | rfl | cases h

/-- What the attributes of an annotation are once its ties are gone. -/
def Note.untiedTold (a : Note) : Attribute → Value
  | .partialId => .null
  | .partials => .list []
  | .field f => a.untied.get f

/-- The value fits again once it is printed, and is without ties then. -/
def Shape.Restores (shape : Shape) (v : Value) : Prop := fit shape v.dump = .ok v.untied

/-- **The printed fields of an annotation tell what it is**, without its ties. -/
theorem Note.dumpFields_tells {a : Note} (keys : a.keys = a.kind.fields)
    (nulls : ∀ e ∈ a.fields, e.2 = .null → e.1.alwaysList = false)
    (slots : ∀ e ∈ a.fields, e.2 ≠ .null → e.1.shape.Restores e.2) :
    a.kind.Tells a.dumpFields Attribute.spelling a.untiedTold := by
  have hkeys : a.untied.keys = a.untied.kind.fields := by
    rw [Note.keys_untied, Note.kind_untied, keys]
  have htold : ∀ e ∈ a.fields, a.untiedTold (.field e.1) = (untiedSlot e).2 := by
    intro e he
    refine Note.get_of_mem (e := untiedSlot e) hkeys ?_
    rw [Note.fields_untied]
    exact List.mem_map_of_mem he
  have hdump : a.dumpFields = dumpSlots a.fields := by
    cases a
    rw [Note.dumpFields]
  refine ⟨fun _ => .inl rfl, fun e he => ?_, fun b hb hname => ?_⟩
  · rw [hdump] at he
    obtain ⟨d, hd, ⟨hinternal, hnull⟩, rfl⟩ := mem_dumpSlots.mp he
    have hfield : d.1 ∈ a.kind.fields := keys ▸ List.mem_map_of_mem hd
    refine ⟨.field d.1, Kind.field_mem_attributes.mpr hfield, rfl, ?_⟩
    have hgiven : (d.2.dump.isNull && !(Attribute.field d.1).refusesNull) = false := by
      rw [Bool.eq_false_iff.mpr fun hv =>
          hnull (Value.dump_eq_null_iff.mp (Value.isNull_iff.mp hv)),
        Bool.false_and]
    rw [htold d hd, untiedSlot, hinternal, Attribute.admit, hgiven]
    exact slots d hd hnull
  · cases b with
    | partialId => rfl
    | partials => rfl
    | field f =>
        have hf : f ∈ a.keys := by
          rw [keys]
          exact Kind.field_mem_attributes.mp hb
        obtain ⟨d, hd, rfl⟩ := List.mem_map.mp hf
        rw [htold d hd, untiedSlot]
        dsimp only
        -- A field whose name is missing is internal or says nothing.
        cases hinternal : d.1.isInternal with
        | true =>
            have hlist := Field.alwaysList_of_isInternal hinternal
            rw [if_pos rfl]
            exact (if_neg (Bool.eq_false_iff.mp hlist)).symm
        | false =>
            by_cases hnull : d.2 = .null
            · have hlist := nulls d hd hnull
              rw [if_neg Bool.false_ne_true, hnull]
              exact (if_neg (Bool.eq_false_iff.mp hlist)).symm
            · rw [hdump] at hname
              have hentry := mem_dumpSlots.mpr ⟨d, hd, ⟨hinternal, hnull⟩, rfl⟩
              exact absurd (List.mem_map_of_mem hentry) hname

theorem Note.check_dumpFields_of_slots {a : Note} (keys : a.keys = a.kind.fields)
    (nulls : ∀ e ∈ a.fields, e.2 = .null → e.1.alwaysList = false)
    (slots : ∀ e ∈ a.fields, e.2 ≠ .null → e.1.shape.Restores e.2) :
    a.kind.check a.dumpFields = .ok a.untied := by
  rw [(Note.dumpFields_tells keys nulls slots).check_eq]
  have hkeys : a.untied.keys = a.untied.kind.fields := by
    rw [Note.keys_untied, Note.kind_untied, keys]
  have hfields := Note.map_get_fields hkeys
  rw [Note.kind_untied] at hfields
  unfold Note.untiedTold
  dsimp only
  rw [hfields]
  cases a
  rw [Note.untied]
  rfl

/-! ## 4. Everything fits again -/

/-- Whether no group is declared: its members would have no kind. -/
def Shape.ungrouped : Shape → Bool
  | .list item => item.ungrouped
  | .child k => !k.isGroup
  | _ => true

theorem Kind.ungrouped_declared {k : Kind} (h : k.isGroup = false) (f : Field) :
    k.declared f = f.shape ∧ f.shape.ungrouped = true := by
  constructor
  · unfold Kind.declared
    cases k <;> first | rfl | cases h
  · cases f <;> rfl

theorem Shape.restores_list {item : Shape} {vs : List Value} (h : ∀ v ∈ vs, item.Restores v) :
    (Shape.list item).Restores (.list vs) := by
  have hitems : ∀ i, fitItems item i (dumpItems vs) = .ok (untiedItems vs) := by
    induction vs with
    | nil => intro i; rw [dumpItems, untiedItems, fitItems]
    | cons v vs ih =>
        intro i
        obtain ⟨hv, hvs⟩ := List.forall_mem_cons.mp h
        unfold Shape.Restores at hv
        rw [dumpItems, untiedItems, fitItems, hv, ih hvs]
        rfl
  unfold Shape.Restores
  rw [Value.dump, Value.untied, fit, hitems]
  rfl

/-- **What is of a shape fits it again once it is printed.** -/
theorem Value.OfShape.restores {shape : Shape} {v : Value} (h : v.OfShape .unannotated shape)
    (hshape : shape.ungrouped = true) : shape.Restores v := by
  induction h with
  | text s | flag b | whole hn => rfl
  | anything hv =>
      have hplain : Value.Unannotated _ := hv
      unfold Shape.Restores
      rw [hplain.dump_eq, hplain.untied_eq, fit_anything]
  | list items ih => exact Shape.restores_list fun v hv => ih v hv hshape
  | @child a keys nulls slots references ih =>
      have hgroup : a.kind.isGroup = false := by simpa [Shape.ungrouped] using hshape
      have hslots : ∀ e ∈ a.fields, e.2 ≠ .null → e.1.shape.Restores e.2 := by
        intro e he hnull
        obtain ⟨hdeclared, hungrouped⟩ := Kind.ungrouped_declared hgroup e.1
        have hslot := ih e he hnull
        rw [hdeclared] at hslot
        exact hslot hungrouped
      have hcheck := Note.check_dumpFields_of_slots keys nulls hslots
      unfold Kind.check at hcheck
      unfold Shape.Restores
      rw [Value.dump, Value.untied, fit, hcheck]
      rfl

/-- **Checking what is printed of an annotation gives it back** without its ties, and that is
    printed in the same way: for every annotation as its kind declares it, unless it is a group. -/
theorem check_dumpFields {a : Note} (h : a.Typed .unannotated) (hgroup : a.kind.isGroup = false) :
    a.kind.check a.dumpFields = .ok a.untied ∧ a.untied.dump = a.dump := by
  have hrestores : (Shape.child a.kind).Restores (.note a) :=
    h.restores (by rw [Shape.ungrouped, hgroup, Bool.not_false])
  constructor
  · unfold Shape.Restores at hrestores
    rw [Value.dump, Value.untied, fit] at hrestores
    unfold Kind.check
    cases hcheck : a.kind.assemble (readEntries a.kind a.dumpFields) with
    | error faults =>
        rw [hcheck] at hrestores
        cases hrestores
    | ok b =>
        rw [hcheck] at hrestores
        cases hrestores
        rfl
  · unfold Note.dump
    rw [Note.dumpFields_untied]

/-- Items that refer to a definition. -/
def unitItems : Note := ⟨.items, none, ["unit"], [(.type, .null), (.ref, .text "Unit")]⟩

/-- A property with an id and a reference of its own, and with nulls among its untyped values. -/
def sizedProperty : Note where
  kind := .property
  partialId := some "size"
  partials := ["unit"]
  fields := [
    (.name, .text "size"),
    (.type, .text "array"),
    (.format, .null),
    (.description, .null),
    (.items, .note unitItems),
    (.required, .bool false),
    (.enum, .list [.null, .map [(.text "k", .null), (.whole 1, .list [])]]),
    (.minimum, .map [(.text "name", .pair "k" .null)]),
    (.maximum, .int 3)]

/-- A model with every tie that there is. -/
def tiedModel : Note where
  kind := .model
  partialId := some "base"
  partials := ["a", "b"]
  fields := [
    (.id, .text "Box"),
    (.description, .null),
    (.subTypes, .list [.text "Crate"]),
    (.discriminator, .null),
    (.properties, .list [.note sizedProperty]),
    (.declaringClass, .text "Box"),
    (.parentClass, .text "Thing")]

theorem check_dumpFields_tiedModel :
    tiedModel.Typed .unannotated ∧ tiedModel.kind.isGroup = false ∧
      Kind.model.check tiedModel.dumpFields = .ok tiedModel.untied ∧
        tiedModel.untied.dump = tiedModel.dump := by
  have hreferences : ∀ ids : List String, ∀ id ∈ ids, Leaves.unannotated.reference id :=
    fun _ _ _ => trivial
  have hitems : unitItems.Typed .unannotated := by
    refine .child (a := unitItems) rfl ?_ ?_ (hreferences _)
    · simp only [unitItems, List.forall_mem_cons]
      exact ⟨fun _ => rfl, nofun, nofun⟩
    · simp only [unitItems, List.forall_mem_cons]
      exact ⟨fun h => absurd rfl h, fun _ => .text _, nofun⟩
  have henum : ∀ v ∈ [Value.null, .map [(.text "k", .null), (.whole 1, .list [])]],
      v.Unannotated := by
    simp only [List.forall_mem_cons]
    refine ⟨.null, .map ?_, nofun⟩
    simp only [List.forall_mem_cons]
    exact ⟨.null, .list nofun, nofun⟩
  have hminimum : (Value.map [(.text "name", .pair "k" .null)]).Unannotated :=
    .map (List.forall_mem_singleton.mpr (.pair .null))
  have hproperty : sizedProperty.Typed .unannotated := by
    refine .child (a := sizedProperty) rfl ?_ ?_ (hreferences _)
    · have hlists : ∀ f ∈ Kind.property.fields, f.alwaysList = false := by decide
      exact fun e he _ => hlists e.1 (List.mem_map_of_mem he)
    · simp only [sizedProperty, List.forall_mem_cons]
      exact ⟨fun _ => .text _, fun _ => .text _, fun h => absurd rfl h, fun h => absurd rfl h,
        fun _ => hitems, fun _ => .flag _, fun _ => .list fun v hv => .anything (henum v hv),
        fun _ => .anything hminimum, fun _ => .anything (.int 3), nofun⟩
  have htyped : tiedModel.Typed .unannotated := by
    refine .child (a := tiedModel) rfl ?_ ?_ (hreferences _)
    · simp only [tiedModel, List.forall_mem_cons]
      exact ⟨nofun, fun _ => rfl, nofun, fun _ => rfl, nofun, nofun, nofun, nofun⟩
    · simp only [tiedModel, List.forall_mem_cons]
      exact ⟨fun _ => .text _, fun h => absurd rfl h,
        fun _ => .list (List.forall_mem_singleton.mpr (.text _)), fun h => absurd rfl h,
        fun _ => .list (List.forall_mem_singleton.mpr hproperty), fun _ => .text _,
        fun _ => .text _, nofun⟩
  exact ⟨htyped, rfl, check_dumpFields htyped rfl⟩

end Marginalia
