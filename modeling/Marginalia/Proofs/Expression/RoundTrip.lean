import Marginalia.Proofs.Expression.Plain

/-!
# Writing an annotation and reading it back

An annotation that keeps to what its kind declares is read back from its text as it was, at every
depth (`evaluate_render`), if no whole number in it is too long to be read. The declarations alone
do not ask for that, and then it can be refused (`evaluate_render_bareCode`):

* `Leaves.declared`, `Leaves.readable`: what the two ask of whole numbers;
* `Conveys`: the arguments of an annotation give it entries and references, one lemma for each
  thing that is written: a field by its name, the annotations nested in a field, a reference;
* `Note.entries`: what all arguments of an annotation give it. That tells what it is
  (`Note.tells`), so an annotation is read back if its slots are (`readsBack_note`).
-/

namespace Marginalia

open Expression

/-! ## 1. What the declarations leave open -/

/-- As it is declared: any whole number, no empty reference, and a plain value where any value can
    stand. -/
def Leaves.declared : Leaves := ⟨fun _ => True, (· ≠ ""), Value.Plain⟩

/-- The same, but only whole numbers that can be read. -/
def Leaves.readable : Leaves := ⟨Short, (· ≠ ""), Value.Plain⟩

/-! ## 2. Arguments -/

/-- Arguments give an annotation entries and references. -/
def Conveys (k : Kind) (items : List (Derivation (.item .arguments))) (es : List (Key × Value))
    (refs : List String) : Prop :=
  ∃ parts, Yields items parts ∧
    Gathers k ((parts.filter Part.counts).map Part.argument) es refs

theorem Conveys.nil {k : Kind} : Conveys k [] [] [] := ⟨[], .nil, .nil⟩

theorem Conveys.append {k : Kind} {items more : List (Derivation (.item .arguments))}
    {es es' : List (Key × Value)} {refs refs' : List String} (h : Conveys k items es refs)
    (hmore : Conveys k more es' refs') : Conveys k (items ++ more) (es ++ es') (refs ++ refs') := by
  obtain ⟨parts, hparts, hgathers⟩ := h
  obtain ⟨parts', hparts', hgathers'⟩ := hmore
  refine ⟨parts ++ parts', hparts.append hparts', ?_⟩
  rw [List.filter_append, List.map_append]
  exact hgathers.append hgathers'

theorem Conveys.assignment (k : Kind) (name : String) {v : Value}
    (h : Tree.eval Imports.builtin.entries v.expression.meaning = .ok v) :
    Conveys k [.assignment name v.expression] [(.text name, v)] [] :=
  ⟨[⟨some (.text name), v⟩], .cons (eval_assignment name h) .nil, .named name v⟩

/-- Values without a name are arguments as they are. -/
theorem Conveys.expressions {k : Kind} {vs : List Value} (h : ∀ v ∈ vs, v.ReadsBack)
    {es : List (Key × Value)} {refs : List String}
    (hg : Gathers k (vs.map .positional) es refs) :
    Conveys k ((Marginalia.expressions vs).map .unlabelled) es refs := by
  refine ⟨_, yields_expressions h, ?_⟩
  rw [filter_counts h, List.map_map]
  exact hg

theorem eval_applied {k : Kind} {items : List (Derivation (.item .arguments))}
    {parts : List Part} (h : Yields items parts) :
    Tree.eval Imports.builtin.entries
        (Derivation.applied k.written (.ofItems .arguments items)).meaning =
      (Note.build k ((parts.filter Part.counts).map Part.argument)).map .note := by
  unfold Yields at h
  rw [Derivation.meaning, Derivation.meaning_ofItems, Tree.eval, h]
  dsimp only [annotate]
  rw [kindOf_written]

/-- The annotation that refers to a partial definition. -/
def referenceNote (id : String) : Note := ⟨.reference, none, [], [(.value, .text id)]⟩

theorem eval_reference (id : String) :
    Tree.eval Imports.builtin.entries (referenceExpression id).meaning =
      .ok (.note (referenceNote id)) := by
  have hitems : Yields (e := .arguments) [.unlabelled (Value.text id).expression]
      [⟨none, .text id⟩] := .cons (eval_unlabelled (.text id)) .nil
  unfold referenceExpression
  rw [Value.expression] at hitems
  rw [eval_applied hitems]
  rfl

theorem Conveys.references {k : Kind} {refs : List String} (h : ∀ id ∈ refs, id ≠ "") :
    Conveys k (refs.map fun id => .unlabelled (.nested (referenceExpression id))) [] refs := by
  induction refs with
  | nil => exact .nil
  | cons id refs ih =>
      obtain ⟨hid, hrefs⟩ := List.forall_mem_cons.mp h
      have hitem : Item.eval Imports.builtin.entries
          (Derivation.unlabelled (e := .arguments) (.nested (referenceExpression id))).meaning =
          .ok ⟨none, .note (referenceNote id)⟩ := by
        rw [Derivation.meaning, Item.eval, Derivation.meaning]
        dsimp only [labelKey]
        rw [eval_reference]
        rfl
      have hone : Conveys k [.unlabelled (.nested (referenceExpression id))] [] [id] :=
        ⟨_, .cons hitem .nil, .reference hid rfl rfl⟩
      exact hone.append (ih hrefs)

/-! ## 3. Fields -/

/-- The name under which an attribute reaches an annotation: nested annotations are routed by the
    inner name of their field. -/
def Attribute.written : Attribute → String
  | .field f => if f.nests then f.key else f.spelling
  | a => a.spelling

/-- Whether nothing has to be written for a value. -/
def Field.isSilent (f : Field) : Value → Bool
  | .null => true
  | .list [] => f.alwaysList
  | _ => false

/-- The entries for the fields that are nested, or for those that are not. -/
def slotEntries (nested : Bool) (slots : List (Field × Value)) : List (Key × Value) :=
  (slots.filter fun e => e.1.nests == nested && !e.1.isSilent e.2).map fun e =>
    (.text (Attribute.field e.1).written, e.2)

theorem Field.eq_default_of_isSilent {f : Field} {v : Value} (h : f.isSilent v = true)
    (hnull : v = .null → f.alwaysList = false) : v = f.default := by
  unfold Field.isSilent at h
  unfold Field.default
  split at h
  · rw [hnull rfl]
    rfl
  · rw [h]
    rfl
  · cases h

theorem Field.isSilent_eq_false {f : Field} {v : Value} (hl : f.alwaysList = false)
    (hnull : v ≠ .null) : f.isSilent v = false := by
  unfold Field.isSilent
  split
  · exact absurd rfl hnull
  · exact hl
  · rfl

theorem slotItems_cons (nested : Bool) (e : Field × Value) (slots : List (Field × Value)) :
    slotItems nested (e :: slots) = slotItems nested [e] ++ slotItems nested slots := by
  obtain ⟨f, v⟩ := e
  rw [slotItems, slotItems, slotItems]
  split
  · rfl
  · split
    · rw [List.append_nil]
    · rfl

theorem slotEntries_cons (nested : Bool) (e : Field × Value) (slots : List (Field × Value)) :
    slotEntries nested (e :: slots) = slotEntries nested [e] ++ slotEntries nested slots := by
  unfold slotEntries
  rw [← List.singleton_append, List.filter_append, List.map_append]

theorem slotEntries_singleton (nested : Bool) (f : Field) (v : Value) :
    slotEntries nested [(f, v)] = if f.nests == nested && !f.isSilent v then
      [(.text (Attribute.field f).written, v)] else [] := by
  unfold slotEntries
  rw [List.filter_singleton]
  cases f.nests == nested && !f.isSilent v <;> rfl

/-- What one slot of an annotation of a kind has to be for the round trip. -/
structure Kind.Slot (k : Kind) (e : Field × Value) : Prop where
  mem : e.1 ∈ k.fields
  null : e.2 = .null → e.1.alwaysList = false
  typed : e.2 ≠ .null → e.2.OfShape .readable (k.declared e.1)
  readsBack : e.2 ≠ .null → e.2.ReadsBack ∧ ∀ v ∈ e.2.items, v.ReadsBack

/-- What is nested in a field is conveyed to this field. -/
theorem Kind.Slot.conveys_spread {k : Kind} {e : Field × Value} (h : k.Slot e)
    (hnests : e.1.nests = true) (hnull : e.2 ≠ .null) :
    Conveys k (e.2.spread.map .unlabelled)
      (if !e.1.isSilent e.2 then [(.text (Attribute.field e.1).written, e.2)] else []) [] := by
  obtain ⟨f, v⟩ := e
  have hwritten : (Attribute.field f).written = f.key := if_pos hnests
  obtain ⟨c, hfield, hreference, hgroup, hdeclared⟩ := Kind.declared_of_nests h.mem hnests
  have hshape := h.typed hnull
  obtain ⟨hv, hitems⟩ := h.readsBack hnull
  rw [hdeclared] at hshape
  dsimp only
  rw [hwritten]
  cases hl : f.alwaysList with
  | true =>
      rw [if_pos hl] at hshape
      cases hshape with
      | @list _ vs items =>
          have hnotes : ∀ w ∈ vs, w.IsNote c := by
            intro w hw
            cases items w hw with
            | child => exact ⟨_, rfl, rfl⟩
          refine .expressions hitems ?_
          cases vs with
          | nil =>
              rw [Field.isSilent, hl]
              exact .nil
          | cons w ws => exact .members hreference hgroup hfield hl hnotes
  | false =>
      rw [if_neg (Bool.eq_false_iff.mp hl)] at hshape
      cases hshape with
      | child =>
          have hone := List.forall_mem_singleton.mpr hv
          exact .expressions hone (.child hreference hfield hl rfl)

/-- What is not nested is conveyed by name. -/
theorem Kind.Slot.conveys_named {k : Kind} {e : Field × Value} (h : k.Slot e)
    (hnests : e.1.nests = false) (hnull : e.2 ≠ .null) :
    Conveys k [.assignment e.1.spelling e.2.expression]
      (if !e.1.isSilent e.2 then [(.text (Attribute.field e.1).written, e.2)] else []) [] := by
  have hwritten : (Attribute.field e.1).written = e.1.spelling :=
    if_neg (Bool.eq_false_iff.mp hnests)
  have hlist : e.1.alwaysList = false := by
    refine Bool.eq_false_iff.mpr fun hl => ?_
    rw [Field.nests_of_alwaysList hl] at hnests
    cases hnests
  rw [Field.isSilent_eq_false hlist hnull, hwritten]
  exact .assignment k e.1.spelling (h.readsBack hnull).1.eval_eq

/-- A slot conveys its entry where its turn is, among the nested fields or among the others. -/
theorem Kind.Slot.conveys {k : Kind} {e : Field × Value} (h : k.Slot e) (nested : Bool) :
    Conveys k (slotItems nested [e]) (slotEntries nested [e]) [] := by
  obtain ⟨f, v⟩ := e
  rw [slotItems, slotItems, slotEntries_singleton]
  -- The text goes over the slots twice; each slot has its turn in one of the two passes.
  by_cases hskip : f.nests ≠ nested ∨ v = .null
  · have hitems : (f.nests != nested || v.isNull) = true := by
      rw [Bool.or_eq_true, bne_iff_ne, Value.isNull_iff]
      exact hskip
    have hentries : (f.nests == nested && !f.isSilent v) = false := by
      rcases hskip with hother | rfl
      · rw [beq_eq_false_iff_ne.mpr hother, Bool.false_and]
      · rw [Field.isSilent, Bool.not_true, Bool.and_false]
    rw [if_pos hitems, hentries]
    exact .nil
  · obtain ⟨hturn, hnull⟩ := not_or.mp hskip
    have hitems : ¬(f.nests != nested || v.isNull) = true := by
      rw [Bool.or_eq_true, bne_iff_ne, Value.isNull_iff]
      exact hskip
    rw [if_neg hitems, not_not.mp hturn, beq_self_eq_true, Bool.true_and]
    cases nested with
    | true =>
        rw [if_pos rfl, List.append_nil]
        exact h.conveys_spread (not_not.mp hturn) hnull
    | false =>
        rw [if_neg Bool.false_ne_true]
        exact h.conveys_named (not_not.mp hturn) hnull

theorem conveys_slotItems {k : Kind} {slots : List (Field × Value)} (h : ∀ e ∈ slots, k.Slot e)
    (nested : Bool) : Conveys k (slotItems nested slots) (slotEntries nested slots) [] := by
  induction slots with
  | nil =>
      rw [slotItems]
      exact .nil
  | cons e slots ih =>
      obtain ⟨he, hslots⟩ := List.forall_mem_cons.mp h
      rw [slotItems_cons, slotEntries_cons]
      exact (he.conveys nested).append (ih hslots)

/-! ## 4. Annotations -/

/-- The entry for the id of a partial definition. -/
def idEntries (id : Option String) : List (Key × Value) :=
  id.toList.map fun s => (.text Attribute.partialId.written, .text s)

/-- The entries that tell what an annotation is. -/
def Note.entries (a : Note) : List (Key × Value) :=
  idEntries a.partialId ++ (slotEntries false a.fields ++ slotEntries true a.fields)

theorem conveys_idItems (k : Kind) (id : Option String) :
    Conveys k (idItems id) (idEntries id) [] := by
  cases id with
  | none => exact .nil
  | some s =>
      have hid := Conveys.assignment k Attribute.partialId.spelling (Value.ReadsBack.text s).eval_eq
      rw [Value.expression] at hid
      exact hid

/-- No two attributes of a kind are written under one name. -/
theorem Kind.written_nodup (k : Kind) :
    ((.partialId :: ((k.fields.filter (·.nests == false)).map .field ++
      (k.fields.filter (·.nests == true)).map .field)).map fun a : Attribute =>
        Key.text a.written).Nodup := by
  cases k <;> decide

theorem keys_slotEntries_sublist (nested : Bool) (slots : List (Field × Value)) :
    ((slotEntries nested slots).map (·.1)).Sublist
      ((((slots.map (·.1)).filter (·.nests == nested)).map .field).map fun a : Attribute =>
        Key.text a.written) := by
  have hturn : (slots.filter fun e => e.1.nests == nested && !e.1.isSilent e.2).Sublist
      (slots.filter fun e => e.1.nests == nested) :=
    List.monotone_filter_right slots fun e he => (Bool.and_eq_true_iff.mp he).1
  unfold slotEntries
  rw [List.map_map, List.filter_map, List.map_map, List.map_map]
  exact hturn.map _

theorem Note.entries_nodup {a : Note} (h : a.keys = a.kind.fields) :
    (a.entries.map (·.1)).Nodup := by
  have hid : ((idEntries a.partialId).map (·.1)).Sublist
      [Key.text Attribute.partialId.written] := by
    cases a.partialId with
    | none => exact List.nil_sublist _
    | some s => exact List.Sublist.refl _
  refine (a.kind.written_nodup).sublist ?_
  rw [← h, List.map_cons, List.map_append, ← List.singleton_append]
  unfold Note.entries
  rw [List.map_append, List.map_append]
  exact hid.append ((keys_slotEntries_sublist false a.fields).append
    (keys_slotEntries_sublist true a.fields))

/-- What the attributes of an annotation are before references are added to it. -/
def Note.told (a : Note) : Attribute → Value
  | .partialId => .ofText? a.partialId
  | .partials => .list []
  | .field f => a.get f

theorem Attribute.written_eq (a : Attribute) : a.written = a.spelling ∨ a.written = a.key := by
  cases a with
  | partialId => exact .inl rfl
  | partials => exact .inl rfl
  | field f =>
      by_cases hf : f.nests = true
      · exact .inr (if_pos hf)
      · exact .inl (if_neg hf)

theorem mem_slotEntries {nested : Bool} {slots : List (Field × Value)} {e : Key × Value} :
    e ∈ slotEntries nested slots ↔ ∃ d ∈ slots, (d.1.nests = nested ∧ d.1.isSilent d.2 = false) ∧
      e = (.text (Attribute.field d.1).written, d.2) := by
  unfold slotEntries
  rw [List.mem_map]
  refine exists_congr fun d => ?_
  rw [List.mem_filter, Bool.and_eq_true, beq_iff_eq, Bool.not_eq_true', and_assoc,
    eq_comm (b := e)]

theorem Note.mem_entries {a : Note} {e : Key × Value} :
    e ∈ a.entries ↔ (∃ s, a.partialId = some s ∧ e = (.text Attribute.partialId.written, .text s)) ∨
      ∃ d ∈ a.fields, d.1.isSilent d.2 = false ∧
        e = (.text (Attribute.field d.1).written, d.2) := by
  unfold Note.entries idEntries
  rw [List.mem_append, List.mem_append, mem_slotEntries, mem_slotEntries, List.mem_map]
  refine or_congr (exists_congr fun s => ?_) ?_
  · rw [Option.mem_toList, eq_comm (a := e)]
  · constructor
    · rintro (⟨d, hd, ⟨-, hsilent⟩, he⟩ | ⟨d, hd, ⟨-, hsilent⟩, he⟩)
      · exact ⟨d, hd, hsilent, he⟩
      · exact ⟨d, hd, hsilent, he⟩
    · rintro ⟨d, hd, hsilent, he⟩
      cases hnests : d.1.nests with
      | false => exact .inl ⟨d, hd, ⟨hnests, hsilent⟩, he⟩
      | true => exact .inr ⟨d, hd, ⟨hnests, hsilent⟩, he⟩

/-- **The entries of an annotation tell what it is.** -/
theorem Note.tells {a : Note} (h : a.keys = a.kind.fields)
    (hslots : ∀ e ∈ a.fields, a.kind.Slot e) :
    a.kind.Tells a.entries Attribute.written a.told where
  names := Attribute.written_eq
  entries e he := by
    rcases Note.mem_entries.mp he with ⟨s, hs, rfl⟩ | ⟨⟨f, v⟩, hd, hsilent, rfl⟩
    · refine ⟨.partialId, List.mem_cons_self, rfl, ?_⟩
      unfold Note.told
      rw [hs]
      have htext : (Value.text s).OfShape .readable .text := .text s
      exact htext.fit_eq
    · have hslot := hslots _ hd
      have hnull : v ≠ .null := by
        rintro rfl
        cases hsilent
      refine ⟨.field f, Kind.field_mem_attributes.mpr hslot.mem, rfl, ?_⟩
      have htold : a.told (.field f) = v := Note.get_of_mem h hd
      have hgiven : (v.isNull && !(Attribute.field f).refusesNull) = false := by
        rw [Bool.eq_false_iff.mpr fun hv => hnull (Value.isNull_iff.mp hv), Bool.false_and]
      rw [htold, Attribute.admit, hgiven]
      exact (hslot.typed hnull).fit_field_eq hslot.mem
  silent b hb hname := by
    cases b with
    | partialId =>
        cases hid : a.partialId with
        | none =>
            unfold Note.told
            rw [hid]
            rfl
        | some s =>
            have hentry := Note.mem_entries.mpr (.inl ⟨s, hid, rfl⟩)
            exact absurd (List.mem_map_of_mem hentry) hname
    | partials => rfl
    | field f =>
        have hf : f ∈ a.keys := by
          rw [h]
          exact Kind.field_mem_attributes.mp hb
        obtain ⟨d, hd, rfl⟩ := List.mem_map.mp hf
        have htold : a.told (.field d.1) = d.2 := Note.get_of_mem h hd
        rw [htold]
        cases hsilent : d.1.isSilent d.2 with
        | true => exact Field.eq_default_of_isSilent hsilent (hslots d hd).null
        | false =>
            have hentry := Note.mem_entries.mpr (.inr ⟨d, hd, hsilent, rfl⟩)
            exact absurd (List.mem_map_of_mem hentry) hname

theorem Value.text?_ofText? (s : Option String) : (Value.ofText? s).text? = s := by
  cases s <;> rfl

/-- An annotation is read back if its slots are. -/
theorem readsBack_note {a : Note} (h : a.keys = a.kind.fields)
    (hslots : ∀ e ∈ a.fields, a.kind.Slot e) (hrefs : ∀ id ∈ a.partials, id ≠ "") :
    (Value.note a).ReadsBack := by
  refine ⟨rfl, ?_⟩
  have htells := Note.tells h hslots
  have hnodup := Note.entries_nodup h
  have hfields := Note.map_get_fields h
  obtain ⟨k, id, refs, slots⟩ := a
  -- The arguments stand in the order of the text: id, named fields, nested annotations, references.
  have hconveys := (conveys_idItems k id).append ((conveys_slotItems hslots false).append
    ((conveys_slotItems hslots true).append (Conveys.references hrefs)))
  rw [List.append_nil] at hconveys
  obtain ⟨parts, hparts, hgathers⟩ := hconveys
  rw [Value.expression, Derivation.meaning, Note.expression, eval_applied hparts,
    hgathers.build_eq hnodup htells]
  dsimp only [Note.told] at hfields ⊢
  rw [hfields, Value.text?_ofText?]
  rfl

theorem Value.Plain.items {v : Value} (h : v.Plain) : ∀ w ∈ v.items, w.Plain := by
  cases h with
  | list items => exact items
  | _ => exact nofun

/-- **What is of a shape is read back**, and so are the items of a list. -/
theorem Value.OfShape.readsBack {shape : Shape} {v : Value} (h : v.OfShape .readable shape) :
    v.ReadsBack ∧ ∀ w ∈ v.items, w.ReadsBack := by
  -- The items are carried along because a nested list is written item by item, without the array.
  induction h with
  | text s => exact ⟨.text s, nofun⟩
  | flag b => exact ⟨.bool b, nofun⟩
  | whole hn => exact ⟨.int hn, nofun⟩
  | anything hv =>
      have hplain : Value.Plain _ := hv
      exact ⟨hplain.readsBack, fun w hw => (hplain.items w hw).readsBack⟩
  | list items ih => exact ⟨.list fun v hv => (ih v hv).1, fun v hv => (ih v hv).1⟩
  | @child a keys nulls slots references ih =>
      have hslots : ∀ e ∈ a.fields, a.kind.Slot e := fun e he =>
        ⟨keys ▸ List.mem_map_of_mem he, nulls e he, slots e he, ih e he⟩
      exact ⟨readsBack_note keys hslots references, nofun⟩

/-- **Writing an annotation and reading it back is the identity**, for every annotation that is as
    its kind declares it and in which no whole number is too long. -/
theorem evaluate_render {a : Note} (h : a.Typed .readable) :
    evaluate Imports.builtin.entries a.render = .ok (.note a) := by
  unfold evaluate
  rw [parse_render]
  exact h.readsBack.1.eval_eq

/-- The items of a list, given by the name of a model. -/
def sampleItems : Note := ⟨.items, none, [], [(.type, .null), (.ref, .text "Pet")]⟩

/-- An annotation that says something of every sort. -/
def sampleParameter : Note where
  kind := .parameter
  partialId := some "P"
  partials := ["a", "b"]
  fields := [
    (.name, .text "x\"y"),
    (.description, .null),
    (.paramType, .text "query"),
    (.type, .text "true"),
    (.format, .null),
    (.items, .note sampleItems),
    (.required, .bool true),
    (.allowMultiple, .null),
    (.defaultValue, .map [(.text "null", .null), (.text "k", .list [.int (-3), .text ""])]),
    (.enum, .list [.list [], .bool false]),
    (.minimum, .int 0),
    (.maximum, .null)]

theorem evaluate_render_sampleParameter :
    sampleParameter.Typed .readable ∧
    String.ofList sampleParameter.render = "@SWG\\Parameter(partial=\"P\", name=\"x\"\"y\"" ++
      ", paramType=\"query\", type=\"true\", required=true" ++
      ", defaultValue=\x7b\"null\"=null, \"k\"=\x7b-3, \"\"\x7d\x7d" ++
      ", enum=\x7b\x7b\x7d, false\x7d, minimum=0" ++
      ", @SWG\\Items($ref=\"Pet\"), @SWG\\Partial(\"a\"), @SWG\\Partial(\"b\"))" ∧
    evaluate Imports.builtin.entries sampleParameter.render = .ok (.note sampleParameter) := by
  have hlists : ∀ k ∈ [Kind.items, Kind.parameter], ∀ f ∈ k.fields, f.alwaysList = false := by
    decide
  have hitems : sampleItems.Typed .readable := by
    refine .child rfl (fun e he _ => hlists .items (by decide) e.1 (List.mem_map_of_mem he)) ?_
      nofun
    simp only [sampleItems, List.forall_mem_cons]
    exact ⟨fun h => absurd rfl h, fun _ => .text _, nofun⟩
  have hdefault : (Value.map [(.text "null", .null),
      (.text "k", .list [.int (-3), .text ""])]).Plain := by
    refine .map nofun ?_ (by decide) ?_
    · simp only [List.forall_mem_cons]
      exact ⟨⟨_, rfl⟩, ⟨_, rfl⟩, nofun⟩
    · simp only [List.forall_mem_cons]
      refine ⟨fun h => absurd rfl h, fun _ => .list ?_, nofun⟩
      simp only [List.forall_mem_cons]
      exact ⟨.int (by decide +kernel), .text _, nofun⟩
  have hmembers : ∀ v ∈ [Value.list [], .bool false], v.Plain := by
    simp only [List.forall_mem_cons]
    exact ⟨.list nofun, .bool _, nofun⟩
  have htyped : sampleParameter.Typed .readable := by
    have hreferences : ∀ id ∈ ["a", "b"], id ≠ "" := by decide
    refine .child rfl (fun e he _ => hlists .parameter (by decide) e.1 (List.mem_map_of_mem he)) ?_
      hreferences
    simp only [sampleParameter, List.forall_mem_cons]
    exact ⟨fun _ => .text _, fun h => absurd rfl h, fun _ => .text _, fun _ => .text _,
      fun h => absurd rfl h, fun _ => hitems, fun _ => .flag _, fun h => absurd rfl h,
      fun _ => .anything hdefault, fun _ => .list fun v hv => .anything (hmembers v hv),
      fun _ => .anything (.int (by decide +kernel)), fun h => absurd rfl h, nofun⟩
  exact ⟨htyped, by decide +kernel, evaluate_render htyped⟩

/-! ## 5. Whole numbers that are too long -/

/-- A response message that says nothing but its code. -/
def bareCode (n : Int) : Note :=
  ⟨.responseMessage, none, [], [(.code, .int n), (.message, .null), (.responseModel, .null)]⟩

/-- A code that is too long is refused, although any whole number can be a code. -/
theorem evaluate_render_bareCode {n : Int} (h : ¬Short n) :
    evaluate Imports.builtin.entries (bareCode n).render =
      .error (.tooManyDigits (Text.natDigits n.natAbs).length) := by
  have hcode : Item.eval Imports.builtin.entries
      (Derivation.assignment Field.code.spelling (Value.int n).expression).meaning =
        .error (.tooManyDigits (Text.natDigits n.natAbs).length) := by
    rw [Derivation.meaning, Item.eval, eval_int, (readWhole_intText n).2 h]
    rfl
  have hmeaning : (bareCode n).expression.meaning = .call Kind.responseMessage.written
      [(Derivation.assignment Field.code.spelling (Value.int n).expression).meaning] := rfl
  unfold evaluate
  rw [parse_render, hmeaning]
  dsimp only
  rw [Tree.eval, evalItems, hcode]

theorem length_natDigits_pow (n : Nat) : (Text.natDigits (10 ^ n)).length = n + 1 := by
  have hmost : (Text.natDigits (10 ^ n)).length ≤ n + 1 :=
    (Nat.length_toDigits_le_iff (by decide) n.succ_pos).mpr
      (Nat.pow_lt_pow_right (by decide) n.lt_succ_self)
  have hleast : ¬(Text.natDigits (10 ^ n)).length ≤ n := by
    cases n with
    | zero => exact Nat.not_le.mpr (List.length_pos_of_ne_nil Nat.toDigits_ne_nil)
    | succ n =>
        exact fun h => Nat.lt_irrefl _
          ((Nat.length_toDigits_le_iff (by decide) n.succ_pos).mp h)
  omega

/-- An annotation as its kind declares it that is not read back. -/
theorem bareCode_declared_refused :
    (bareCode ((10 ^ Number.maxDigits : Nat) : Int)).Typed .declared ∧
    evaluate Imports.builtin.entries (bareCode ((10 ^ Number.maxDigits : Nat) : Int)).render =
      .error (.tooManyDigits (Number.maxDigits + 1)) := by
  have hlong : ¬Short ((10 ^ Number.maxDigits : Nat) : Int) := Nat.lt_irrefl _
  have hlists : ∀ f ∈ Kind.responseMessage.fields, f.alwaysList = false := by decide
  refine ⟨.child rfl (fun e he _ => hlists e.1 (List.mem_map_of_mem he)) ?_ nofun, ?_⟩
  · simp only [bareCode, List.forall_mem_cons]
    exact ⟨fun _ => .whole trivial, fun h => absurd rfl h, fun h => absurd rfl h, nofun⟩
  · rw [evaluate_render_bareCode hlong, Int.natAbs_natCast, length_natDigits_pow]

end Marginalia
