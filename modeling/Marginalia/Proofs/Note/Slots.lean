import Marginalia.Note.Value

/-!
# The slots of an annotation

An annotation holds its fields as a list of slots. This module says what reading and changing a
field do to each other, so that nothing above it looks at the list itself:

* `get_set_self`, `get_set_of_ne`: what is read after a field was changed;
* `set_get`, `set_set`: changes that change nothing, and changes that are overwritten;
* `Note.Slotted`: the annotation has exactly the fields of its kind, each once and in order, and a
  list wherever the kind always has one. Changing fields keeps it so (`Slotted.set`);
* `Note.extend`: a list field with more items at its end.
-/

namespace Marginalia

/-! ## 1. Slots as a list -/

theorem Value.isNull_iff {v : Value} : v.isNull = true ↔ v = .null := by
  cases v <;> simp [Value.isNull]

theorem Kind.fields_nodup (k : Kind) : k.fields.Nodup := by cases k <;> decide

/-- The slots with one of them replaced. -/
def replaceSlot (slots : List (Field × Value)) (f : Field) (v : Value) : List (Field × Value) :=
  slots.map fun e => if e.1 = f then (f, v) else e

theorem keys_replaceSlot (slots : List (Field × Value)) (f : Field) (v : Value) :
    (replaceSlot slots f v).map (·.1) = slots.map (·.1) := by
  unfold replaceSlot
  rw [List.map_map]
  refine List.map_congr_left fun e _ => ?_
  show (if e.1 = f then (f, v) else e).1 = e.1
  split
  · rename_i h
    exact h.symm
  · rfl

theorem lookup_replaceSlot_self {slots : List (Field × Value)} {f : Field} (v : Value)
    (h : f ∈ slots.map (·.1)) : (replaceSlot slots f v).lookup f = some v := by
  induction slots with
  | nil => cases h
  | cons e slots ih =>
      obtain ⟨g, w⟩ := e
      unfold replaceSlot at ih ⊢
      rw [List.map_cons]
      by_cases hg : g = f
      · rw [if_pos hg]
        exact List.lookup_cons_self
      · have hne : (f == g) = false := beq_eq_false_iff_ne.mpr fun e => hg e.symm
        rw [if_neg hg, List.lookup_cons, hne]
        refine ih ?_
        rcases List.mem_cons.mp h with rfl | hm
        · exact absurd rfl hg
        · exact hm

theorem lookup_replaceSlot_of_ne (slots : List (Field × Value)) {f g : Field} (v : Value)
    (h : g ≠ f) : (replaceSlot slots f v).lookup g = slots.lookup g := by
  induction slots with
  | nil => rfl
  | cons e slots ih =>
      obtain ⟨k, w⟩ := e
      unfold replaceSlot at ih ⊢
      rw [List.map_cons]
      by_cases hk : k = f
      · subst hk
        have hne : (g == k) = false := beq_eq_false_iff_ne.mpr h
        rw [if_pos rfl, List.lookup_cons, List.lookup_cons, hne]
        exact ih
      · rw [if_neg hk, List.lookup_cons, List.lookup_cons, ih]

/-- In a table whose keys are distinct, every entry is the one that its key finds. -/
theorem lookup_of_mem {α β : Type} [BEq α] [LawfulBEq α] {es : List (α × β)}
    (hn : (es.map (·.1)).Nodup) {e : α × β} (he : e ∈ es) : es.lookup e.1 = some e.2 := by
  induction es with
  | nil => cases he
  | cons d es ih =>
      obtain ⟨k, b⟩ := d
      rw [List.map_cons, List.nodup_cons] at hn
      rcases List.mem_cons.mp he with rfl | hm
      · exact List.lookup_cons_self
      · have hne : (e.1 == k) = false := beq_eq_false_iff_ne.mpr fun heq =>
          hn.1 (List.mem_map.mpr ⟨e, hm, heq⟩)
        rw [List.lookup_cons, hne]
        exact ih hn.2 hm

/-- What a key finds stands under it. -/
theorem mem_of_lookup {α β : Type} [BEq α] [LawfulBEq α] {es : List (α × β)} {k : α} {b : β}
    (h : es.lookup k = some b) : (k, b) ∈ es := by
  obtain ⟨before, behind, rfl, -⟩ := List.lookup_eq_some_iff.mp h
  exact List.mem_append_right _ List.mem_cons_self

theorem replaceSlot_lookup {slots : List (Field × Value)} {f : Field} {v : Value}
    (hn : (slots.map (·.1)).Nodup) (h : slots.lookup f = some v) :
    replaceSlot slots f v = slots := by
  refine (List.map_congr_left fun e he => ?_).trans (List.map_id _)
  by_cases hf : e.1 = f
  · rw [if_pos hf]
    have hv := lookup_of_mem hn he
    rw [hf, h] at hv
    rw [Option.some.inj hv, ← hf]
    rfl
  · rw [if_neg hf]
    rfl

/-! ## 2. Reading and changing fields -/

namespace Note

/-- The fields that an annotation has. -/
def keys (a : Note) : List Field := a.fields.map (·.1)

theorem fields_set (a : Note) (f : Field) (v : Value) :
    (a.set f v).fields = replaceSlot a.fields f v := rfl

@[simp] theorem keys_set (a : Note) (f : Field) (v : Value) : (a.set f v).keys = a.keys :=
  keys_replaceSlot a.fields f v

theorem get_set_self {a : Note} {f : Field} (v : Value) (h : f ∈ a.keys) :
    (a.set f v).get f = v := by
  unfold get
  rw [fields_set, lookup_replaceSlot_self v h]
  rfl

theorem get_set_of_ne (a : Note) {f g : Field} (v : Value) (h : g ≠ f) :
    (a.set f v).get g = a.get g := by
  unfold get
  rw [fields_set, lookup_replaceSlot_of_ne a.fields v h]

@[simp] theorem kind_fill (a : Note) (f : Field) (v : Value) : (a.fill f v).kind = a.kind := by
  unfold fill
  split <;> rfl

@[simp] theorem partialId_fill (a : Note) (f : Field) (v : Value) :
    (a.fill f v).partialId = a.partialId := by
  unfold fill
  split <;> rfl

theorem set_of_not_mem {a : Note} {f : Field} (v : Value) (h : f ∉ a.keys) : a.set f v = a := by
  obtain ⟨kind, id, refs, fields⟩ := a
  show Note.mk kind id refs (replaceSlot fields f v) = _
  congr 1
  refine (List.map_congr_left fun e he => if_neg fun hef => h ?_).trans (List.map_id _)
  exact List.mem_map.mpr ⟨e, he, hef⟩

/-- What is read after a field was changed is the new value or what was read before. -/
theorem get_set_cases (a : Note) (f g : Field) (v : Value) :
    (a.set f v).get g = v ∨ (a.set f v).get g = a.get g := by
  by_cases hf : f ∈ a.keys
  · by_cases hg : g = f
    · subst hg
      exact .inl (get_set_self v hf)
    · exact .inr (get_set_of_ne a v hg)
  · rw [set_of_not_mem v hf]
    exact .inr rfl

theorem set_set (a : Note) (f : Field) (v w : Value) : (a.set f v).set f w = a.set f w := by
  obtain ⟨kind, id, refs, fields⟩ := a
  unfold set
  congr 1
  rw [List.map_map]
  refine List.map_congr_left fun e _ => ?_
  show (if (if e.1 = f then (f, v) else e).1 = f then (f, w) else _) = _
  by_cases hf : e.1 = f
  · rw [if_pos hf, if_pos rfl, if_pos hf]
  · rw [if_neg hf, if_neg hf]

theorem lookup_of_mem_keys {a : Note} {f : Field} (h : f ∈ a.keys) :
    a.fields.lookup f = some (a.get f) := by
  unfold get
  cases hl : a.fields.lookup f with
  | some v => rfl
  | none =>
      obtain ⟨e, he, rfl⟩ := List.mem_map.mp h
      have := List.lookup_eq_none_iff.mp hl e he
      simp at this

theorem get_of_not_mem {a : Note} {f : Field} (h : f ∉ a.keys) : a.get f = .null := by
  have hnone : a.fields.lookup f = none := by
    refine List.lookup_eq_none_iff.mpr fun e he => ?_
    refine bne_iff_ne.mpr fun hf => h ?_
    rw [hf]
    exact List.mem_map_of_mem he
  unfold get
  rw [hnone]
  rfl

theorem set_get {a : Note} {f : Field} (hn : a.keys.Nodup) (h : f ∈ a.keys) :
    a.set f (a.get f) = a := by
  obtain ⟨kind, id, refs, fields⟩ := a
  show Note.mk kind id refs (replaceSlot fields f _) = _
  rw [replaceSlot_lookup hn (lookup_of_mem_keys h)]

end Note

/-! ## 3. Annotations with the fields of their kind -/

/-- **The annotation has the fields of its kind**, each once and in order, and a list in each field
    that always holds one. -/
structure Note.Slotted (a : Note) : Prop where
  keys_eq : a.keys = a.kind.fields
  lists : ∀ f ∈ a.kind.fields, f.alwaysList = true → ∃ vs, a.get f = .list vs

namespace Note

theorem Slotted.nodup {a : Note} (h : a.Slotted) : a.keys.Nodup := by
  rw [h.keys_eq]
  exact a.kind.fields_nodup

theorem Slotted.mem {a : Note} (h : a.Slotted) {f : Field} (hf : f ∈ a.kind.fields) :
    f ∈ a.keys := by
  rw [h.keys_eq]
  exact hf

theorem Slotted.set {a : Note} (h : a.Slotted) {f : Field} {v : Value}
    (hv : f.alwaysList = true → ∃ vs, v = .list vs) : (a.set f v).Slotted where
  keys_eq := by rw [keys_set, kind_set, h.keys_eq]
  lists g hg hl := by
    by_cases hgf : g = f
    · subst hgf
      rw [get_set_self v (h.mem hg)]
      exact hv hl
    · rw [get_set_of_ne a v hgf]
      exact h.lists g hg hl

theorem Slotted.get_ne_null {a : Note} (h : a.Slotted) {f : Field} (hf : f ∈ a.kind.fields)
    (hl : f.alwaysList = true) : a.get f ≠ .null := by
  obtain ⟨vs, hvs⟩ := h.lists f hf hl
  rw [hvs]
  exact nofun

theorem Slotted.fill {a : Note} (h : a.Slotted) {f : Field} (hf : f.alwaysList = false)
    (v : Value) : (a.fill f v).Slotted := by
  unfold Note.fill
  split
  · exact h.set fun hl => absurd (hf ▸ hl) Bool.false_ne_true
  · exact h

theorem keys_of_fields {a : Note} {value : Field → Value}
    (h : a.fields = a.kind.fields.map fun f => (f, value f)) : a.keys = a.kind.fields := by
  unfold keys
  rw [h, List.map_map]
  exact List.map_id _

theorem get_of_mem {a : Note} (h : a.keys = a.kind.fields) {e : Field × Value}
    (he : e ∈ a.fields) : a.get e.1 = e.2 := by
  have hn : a.keys.Nodup := h ▸ a.kind.fields_nodup
  unfold get
  rw [lookup_of_mem hn he]
  rfl

theorem map_get_fields {a : Note} (h : a.keys = a.kind.fields) :
    (a.kind.fields.map fun f => (f, a.get f)) = a.fields := by
  rw [← h]
  unfold keys
  rw [List.map_map]
  refine (List.map_congr_left fun e he => ?_).trans (List.map_id _)
  show (e.1, a.get e.1) = e
  rw [get_of_mem h he]

/-- An annotation that was put together field by field. -/
theorem get_of_fields {a : Note} {value : Field → Value}
    (h : a.fields = a.kind.fields.map fun f => (f, value f)) {f : Field} (hf : f ∈ a.kind.fields) :
    a.get f = value f := by
  have hmem : (f, value f) ∈ a.fields := by
    rw [h]
    exact List.mem_map_of_mem hf
  exact get_of_mem (keys_of_fields h) hmem

theorem keys_blank (k : Kind) : (blank k).keys = k.fields := keys_of_fields rfl

theorem get_blank {k : Kind} {f : Field} (hf : f ∈ k.fields) : (blank k).get f = f.default :=
  get_of_fields rfl hf

theorem Slotted.blank (k : Kind) : (Note.blank k).Slotted where
  keys_eq := keys_blank k
  lists f hf hl := by
    have hk : f ∈ k.fields := hf
    refine ⟨[], ?_⟩
    rw [get_blank hk, Field.default, if_pos hl]

/-- The annotation with more items at the end of a list field. -/
def extend (a : Note) (f : Field) (vs : List Value) : Note :=
  a.set f (.list ((a.get f).items ++ vs))

@[simp] theorem kind_extend (a : Note) (f : Field) (vs : List Value) :
    (a.extend f vs).kind = a.kind := rfl

theorem get_extend_of_ne (a : Note) {f g : Field} (vs : List Value) (h : g ≠ f) :
    (a.extend f vs).get g = a.get g := get_set_of_ne a _ h

theorem get_extend_self {a : Note} {f : Field} (vs : List Value) (h : f ∈ a.keys) :
    (a.extend f vs).get f = .list ((a.get f).items ++ vs) := get_set_self _ h

theorem extend_extend {a : Note} {f : Field} (h : f ∈ a.keys) (vs ws : List Value) :
    (a.extend f vs).extend f ws = a.extend f (vs ++ ws) := by
  show (a.extend f vs).set f (.list (((a.extend f vs).get f).items ++ ws)) = _
  rw [get_extend_self vs h]
  show (a.set f _).set f (.list (((a.get f).items ++ vs) ++ ws)) = _
  rw [set_set, List.append_assoc]
  rfl

theorem extend_nil {a : Note} {f : Field} (h : a.Slotted) (hf : f ∈ a.kind.fields)
    (hl : f.alwaysList = true) : a.extend f [] = a := by
  obtain ⟨vs, hvs⟩ := h.lists f hf hl
  have hself := set_get h.nodup (h.mem hf)
  unfold extend
  rw [hvs] at hself ⊢
  show a.set f (.list (vs ++ [])) = a
  rw [List.append_nil]
  exact hself

theorem Slotted.extend {a : Note} (h : a.Slotted) (f : Field) (vs : List Value) :
    (a.extend f vs).Slotted := h.set fun _ => ⟨_, rfl⟩

end Note

end Marginalia
