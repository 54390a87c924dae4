import Marginalia.Expansion
import Marginalia.Proofs.Definitions

/-!
# Annotations and what stands below them

Expansion goes from an annotation to the annotations in its nest fields and further down. This
module says what it meets on the way:

* `Note.children`: the annotations in the nest fields;
* `Note.Throughout P`: `P` holds of an annotation and of all annotations below it;
* `Note.Nested`: the annotation has the fields of its kind, and every nest field holds what its
  shape asks for. Below an annotation that is not a group the kinds then go down strictly
  (`Kind.rank`), and no group is met;
* `Note.Fresh`: an annotation as it was written, which has no list in common with a definition;
  `Note.Settled`: one without references; `Note.Ready`: one or the other, which is all that
  expansion ever meets.
-/

namespace Marginalia

/-! ## 1. Tables -/

/-- How far a kind stands above the kinds that nest nothing. -/
def Kind.rank : Kind → Nat
  | .resource => 4
  | .api => 3
  | .operation => 2
  | .model => 2
  | .parameter | .property => 1
  | _ => 0

/-- The fields that hold nested annotations. -/
def Field.nests : Field → Bool
  | .apis | .operations | .parameters | .responseMessages | .properties | .items | .members => true
  | _ => false

theorem Kind.mem_nestFields {k : Kind} {f : Field} (hf : f ∈ k.fields) :
    f ∈ k.nestFields ↔ f.nests = true := by
  have h : ∀ f ∈ k.fields, f ∈ k.nestFields ↔ f.nests = true := by cases k <;> decide
  exact h f hf

theorem Kind.nestFields_subset {k : Kind} {f : Field} (hf : f ∈ k.nestFields) : f ∈ k.fields := by
  have h : ∀ f ∈ k.nestFields, f ∈ k.fields := by cases k <;> decide
  exact h f hf

theorem Kind.nestFields_nodup (k : Kind) : k.nestFields.Nodup := by cases k <;> decide

theorem Kind.rank_lt_levels (k : Kind) : k.rank < kindLevels := by cases k <;> decide

/-- Outside of groups the depth of an expansion is never the reason to stop. -/
theorem rank_lt_expansionDepth (defs : Definitions) (a : Note) :
    a.kind.rank < expansionDepth defs a := by
  have := a.kind.rank_lt_levels
  unfold expansionDepth
  omega

/-- Outside of groups every nest field is for one kind, and that kind is a lower one and no
    group. -/
theorem Kind.shape_of_nestFields {k : Kind} (hk : k.isGroup = false) {f : Field}
    (hf : f ∈ k.nestFields) :
    ∃ j : Kind, j.isGroup = false ∧ j.rank < k.rank ∧
      f.shape = if f.alwaysList then .list (.child j) else .child j := by
  have h : ∀ f ∈ k.nestFields, ∃ j ∈ Kind.all, j.isGroup = false ∧ j.rank < k.rank ∧
      f.shape = if f.alwaysList then .list (.child j) else .child j := by
    revert hk
    cases k <;> decide
  obtain ⟨j, -, hj⟩ := h f hf
  exact ⟨j, hj⟩

/-- The field that receives an annotation of a kind nests this kind, or is that of a group and takes
    anything. -/
theorem Kind.shape_of_nestField? {outer inner : Kind} (hi : inner.isGroup = false) {f : Field}
    (h : outer.nestField? inner = some f) :
    f.shape = (if f.alwaysList then .list (.child inner) else .child inner) ∨
      f.alwaysList = true ∧ f.shape = .list .anything := by
  revert hi
  cases outer <;> cases inner <;> cases h <;> decide

/-- What is inserted into an annotation that is no group is of a lower kind. -/
theorem Kind.rank_lt_of_nestField? {outer inner : Kind} (ho : outer.isGroup = false)
    (hi : inner.isGroup = false) {f : Field} (h : outer.nestField? inner = some f) :
    inner.rank < outer.rank := by
  revert ho hi
  cases outer <;> cases inner <;> cases h <;> decide

theorem Field.nests_of_alwaysList {f : Field} (h : f.alwaysList = true) : f.nests = true := by
  revert h
  cases f <;> decide

/-- Only one of the fields that nest annotations holds a single one. -/
theorem Field.eq_items_of_nests {f : Field} (hn : f.nests = true) (hl : f.alwaysList = false) :
    f = .items := by
  revert hn hl
  cases f <;> decide

/-! ## 2. What stands below -/

/-- The annotation that a value is, if it is one. -/
def Value.note? : Value → Option Note
  | .note b => some b
  | _ => none

/-- The annotations that a field holds. -/
def Value.notes : Value → List Note
  | .note b => [b]
  | .list vs => vs.filterMap Value.note?
  | _ => []

theorem Value.note?_eq_some {v : Value} {b : Note} : v.note? = some b ↔ v = .note b := by
  cases v <;> simp [Value.note?]

theorem Value.mem_notes_list {vs : List Value} {b : Note} :
    b ∈ (Value.list vs).notes ↔ .note b ∈ vs := by
  unfold Value.notes
  rw [List.mem_filterMap]
  constructor
  · rintro ⟨v, hv, hb⟩
    rwa [← Value.note?_eq_some.mp hb]
  · intro hb
    exact ⟨_, hb, rfl⟩

theorem Value.mem_notes_note {a b : Note} : b ∈ (Value.note a).notes ↔ b = a := List.mem_singleton

theorem Value.notes_eq_nil {v : Value} (hlist : ∀ vs, v ≠ .list vs) (hnote : ∀ b, v ≠ .note b) :
    v.notes = [] := by
  unfold Value.notes
  split
  · exact absurd rfl (hnote _)
  · exact absurd rfl (hlist _)
  · rfl

/-- The annotations in the nest fields. -/
def Note.children (a : Note) : List Note := a.kind.nestFields.flatMap fun f => (a.get f).notes

theorem Note.mem_children {a b : Note} :
    b ∈ a.children ↔ ∃ f ∈ a.kind.nestFields, b ∈ (a.get f).notes := List.mem_flatMap

theorem Note.mem_children_of_list {a b : Note} {f : Field} {vs : List Value}
    (hf : f ∈ a.kind.nestFields) (hvs : a.get f = .list vs) (hb : .note b ∈ vs) :
    b ∈ a.children := by
  refine Note.mem_children.mpr ⟨f, hf, ?_⟩
  rw [hvs]
  exact Value.mem_notes_list.mpr hb

/-- What a property says of an annotation and of all annotations below it. -/
inductive Note.Throughout (P : Note → Prop) : Note → Prop
  | intro {a : Note} (here : P a) (below : ∀ b ∈ a.children, Throughout P b) : Throughout P a

namespace Note.Throughout

variable {P Q : Note → Prop} {a b : Note}

theorem root (h : a.Throughout P) : P a := by
  cases h with
  | intro here below => exact here

theorem child (h : a.Throughout P) (hb : b ∈ a.children) : b.Throughout P := by
  cases h with
  | intro here below => exact below b hb

theorem mono (hPQ : ∀ a, P a → Q a) (h : a.Throughout P) : a.Throughout Q := by
  induction h with
  | intro here below ih => exact .intro (hPQ _ here) ih

end Note.Throughout

/-! ## 3. Annotations that are well formed -/

/-- A value is an annotation of a kind. -/
def Value.IsNote (k : Kind) (v : Value) : Prop := ∃ b : Note, v = .note b ∧ b.kind = k

/-- What a field of a shape holds where it nests annotations of one kind: a list of them, or one of
    them or none. -/
def Value.Nests : Shape → Value → Prop
  | .list (.child k), v => ∃ vs, v = .list vs ∧ ∀ w ∈ vs, w.IsNote k
  | .child k, v => v = .null ∨ v.IsNote k
  | _, _ => True

/-- A field for one annotation holds no list. -/
theorem Value.not_nests_list {k : Kind} {vs : List Value} : ¬(Value.list vs).Nests (.child k) := by
  rintro (h | ⟨b, h, -⟩)
  · cases h
  · cases h

namespace Note

/-- **Well formed**: the annotation has the fields of its kind, and its nest fields hold annotations
    of the kinds that they are for. -/
structure Nested (a : Note) : Prop where
  slotted : a.Slotted
  nests : ∀ f ∈ a.kind.nestFields, (a.get f).Nests f.shape

/-- No list is one that a definition has too. -/
def Unshared (a : Note) : Prop := ∀ f origin g, a.get f ≠ .shared origin g

/-- As it was written: well formed, every list its own. -/
structure Fresh (a : Note) : Prop extends Nested a where
  unshared : a.Unshared

/-- As it is when it has been expanded: no reference is left. -/
structure Settled (a : Note) : Prop extends Nested a where
  partials_nil : a.partials = []

/-- As it was written, without a reference that stands in it twice if a run may not fail. -/
structure Orderly (strict : Prop) (a : Note) : Prop extends Fresh a where
  partials_nodup : strict → a.partials.Nodup

/-- What expansion meets: annotations as they were written, and such as have been expanded. -/
structure Ready (strict : Prop) (a : Note) : Prop extends Nested a where
  orderly : a.partials = [] ∨ a.Orderly strict

variable {strict : Prop} {a : Note}

theorem Orderly.ready (h : a.Orderly strict) : a.Ready strict := ⟨h.toNested, .inr h⟩

theorem Settled.ready (h : a.Settled) : a.Ready strict := ⟨h.toNested, .inl h.partials_nil⟩

/-! ## 4. Well-formed annotations with a field changed -/

theorem Nested.mem_keys (h : a.Nested) {f : Field} (hf : f ∈ a.kind.nestFields) : f ∈ a.keys :=
  h.slotted.mem (Kind.nestFields_subset hf)

/-- Being well formed does not depend on ids and references. -/
theorem Nested.congr {b : Note} (h : a.Nested) (hk : b.kind = a.kind) (hf : b.fields = a.fields) :
    b.Nested := by
  obtain ⟨kind, id, refs, fields⟩ := a
  obtain ⟨kind', id', refs', fields'⟩ := b
  cases hk
  cases hf
  exact ⟨⟨h.slotted.keys_eq, h.slotted.lists⟩, h.nests⟩

theorem Nested.set (h : a.Nested) {f : Field} {v : Value}
    (hl : f.alwaysList = true → ∃ vs, v = .list vs)
    (hn : f ∈ a.kind.nestFields → v.Nests f.shape) : (a.set f v).Nested where
  slotted := h.slotted.set hl
  nests g hg := by
    by_cases hgf : g = f
    · subst hgf
      rw [get_set_self v (h.mem_keys hg)]
      exact hn hg
    · rw [get_set_of_ne a v hgf]
      exact h.nests g hg

/-- What a nest field holds: a list, or one annotation or none. -/
theorem Nested.get_cases (h : a.Nested) {f : Field} (hf : f ∈ a.kind.nestFields) :
    (∃ vs, a.get f = .list vs) ∨
      f.alwaysList = false ∧ (a.get f = .null ∨ (a.get f).IsNote .items) := by
  have hfields := Kind.nestFields_subset hf
  cases hl : f.alwaysList with
  | true => exact .inl (h.slotted.lists f hfields hl)
  | false =>
      have hitems := Field.eq_items_of_nests ((Kind.mem_nestFields hfields).mp hf) hl
      subst hitems
      exact .inr ⟨rfl, h.nests _ hf⟩

/-- A field that nests annotations holds no list of a definition. -/
theorem Nested.not_mem_of_shared (h : a.Nested) {f g : Field} {origin : String}
    (hget : a.get f = .shared origin g) : f ∉ a.kind.nestFields := by
  intro hf
  rcases h.get_cases hf with ⟨vs, hvs⟩ | ⟨-, hnull | ⟨b, hb, -⟩⟩
  · rw [hget] at hvs
    cases hvs
  · rw [hget] at hnull
    cases hnull
  · rw [hget] at hb
    cases hb

/-- A field that is a list in one annotation and null in another does not nest annotations. -/
theorem Nested.not_mem_of_list {d : Note} (h : a.Nested) (hd : d.Nested) (hk : d.kind = a.kind)
    {f : Field} {vs : List Value} (hnull : a.get f = .null) (hlist : d.get f = .list vs) :
    f ∉ a.kind.nestFields := by
  intro hf
  have hfields := Kind.nestFields_subset hf
  cases hl : f.alwaysList with
  | true => exact h.slotted.get_ne_null hfields hl hnull
  | false =>
      have hitems := Field.eq_items_of_nests ((Kind.mem_nestFields hfields).mp hf) hl
      subst hitems
      have hn := hd.nests _ (hk ▸ hf)
      rw [hlist] at hn
      exact Value.not_nests_list hn

/-- What stands below after a field was changed: what the field holds now, or what stood there
    before. -/
theorem mem_children_set {b : Note} {f : Field} {v : Value} (h : a.Nested)
    (hb : b ∈ (a.set f v).children) : f ∈ a.kind.nestFields ∧ b ∈ v.notes ∨ b ∈ a.children := by
  obtain ⟨g, hg, hbg⟩ := mem_children.mp hb
  rw [kind_set] at hg
  by_cases hgf : g = f
  · subst hgf
    rw [get_set_self v (h.mem_keys hg)] at hbg
    exact .inl ⟨hg, hbg⟩
  · rw [get_set_of_ne a v hgf] at hbg
    exact .inr (mem_children.mpr ⟨g, hg, hbg⟩)

/-- Outside of groups a list in a nest field holds nothing but annotations. -/
theorem Nested.isNote_of_mem (h : a.Nested) (hk : a.kind.isGroup = false) {f : Field}
    (hf : f ∈ a.kind.nestFields) {vs : List Value} (hvs : a.get f = .list vs) {v : Value}
    (hv : v ∈ vs) : ∃ b, v = .note b := by
  obtain ⟨j, -, -, hshape⟩ := Kind.shape_of_nestFields hk hf
  have hn := h.nests f hf
  rw [hshape, hvs] at hn
  split at hn
  · obtain ⟨_, ⟨⟩, hall⟩ := hn
    obtain ⟨b, hb, -⟩ := hall v hv
    exact ⟨b, hb⟩
  · exact absurd hn Value.not_nests_list

/-- Below an annotation that is no group stand annotations of lower kinds, and no groups. -/
theorem Nested.kind_of_child (h : a.Nested) (hk : a.kind.isGroup = false) {b : Note}
    (hb : b ∈ a.children) : b.kind.isGroup = false ∧ b.kind.rank < a.kind.rank := by
  obtain ⟨f, hf, hbf⟩ := mem_children.mp hb
  obtain ⟨j, hj, hlt, hshape⟩ := Kind.shape_of_nestFields hk hf
  have hn := h.nests f hf
  have hbj : b.kind = j := by
    rw [hshape] at hn
    split at hn
    · obtain ⟨vs, hvs, hall⟩ := hn
      rw [hvs, Value.mem_notes_list] at hbf
      obtain ⟨c, hc, hck⟩ := hall _ hbf
      cases hc
      exact hck
    · rcases hn with hnull | ⟨c, hc, hck⟩
      · rw [hnull] at hbf
        cases hbf
      · rw [hc, Value.mem_notes_note] at hbf
        rw [hbf]
        exact hck
  rw [hbj]
  exact ⟨hj, hlt⟩

end Note

/-! ## 5. Annotations that say little -/

theorem Field.nests_default (f : Field) : f.default.Nests f.shape := by
  cases f with
  | items => exact .inl rfl
  | apis | operations | parameters | responseMessages | properties =>
      exact ⟨[], rfl, fun _ h => nomatch h⟩
  | _ => trivial

theorem Field.notes_default (f : Field) : f.default.notes = [] := by
  unfold Field.default
  split
  · rfl
  · rfl

theorem Field.default_ne_shared (f : Field) (origin : String) (g : Field) :
    f.default ≠ .shared origin g := by
  unfold Field.default
  split
  · exact nofun
  · exact nofun

/-- An annotation that says nothing but refers to definitions. -/
def Note.referring (k : Kind) (refs : List String) : Note := { Note.blank k with partials := refs }

namespace Note.Throughout

variable {strict : Prop}

theorem referring (k : Kind) (refs : List String) (h : strict → refs.Nodup) :
    (Note.referring k refs).Throughout (Note.Orderly strict) := by
  have hn : (Note.blank k).Nested := ⟨.blank k, fun f hf => by
    have hk : f ∈ k.fields := Kind.nestFields_subset hf
    rw [Note.get_blank hk]
    exact f.nests_default⟩
  refine .intro ⟨⟨hn.congr rfl rfl, fun f origin g hget => ?_⟩, h⟩ fun b hb => ?_
  · have hget : (Note.blank k).get f = .shared origin g := hget
    by_cases hf : f ∈ k.fields
    · rw [Note.get_blank hf] at hget
      exact f.default_ne_shared origin g hget
    · rw [Note.get_of_not_mem (by rwa [Note.keys_blank])] at hget
      cases hget
  · obtain ⟨f, hf, hbf⟩ := Note.mem_children.mp hb
    have hget : (Note.blank k).get f = f.default := Note.get_blank (Kind.nestFields_subset hf)
    have hbf : b ∈ ((Note.blank k).get f).notes := hbf
    rw [hget, f.notes_default] at hbf
    cases hbf

/-- A list in a field that nests no annotations changes nothing below. -/
theorem set_list {d : Note} {f : Field} (h : d.Throughout (Note.Orderly strict)) (vs : List Value)
    (hf : f ∉ d.kind.nestFields) : (d.set f (.list vs)).Throughout (Note.Orderly strict) := by
  have hroot := h.root
  refine .intro ⟨⟨hroot.toNested.set (fun _ => ⟨_, rfl⟩) fun hm => absurd hm hf, ?_⟩,
    hroot.partials_nodup⟩ fun b hb => ?_
  · intro g origin e hget
    rcases Note.get_set_cases d f g (.list vs) with hnew | hold
    · rw [hnew] at hget
      cases hget
    · rw [hold] at hget
      exact hroot.unshared g origin e hget
  · rcases Note.mem_children_set hroot.toNested hb with ⟨hm, -⟩ | hb
    · exact absurd hm hf
    · exact h.child hb

end Note.Throughout

end Marginalia
