import Mathlib.Data.List.Nodup
import Marginalia.Proofs.Note.Effects

/-!
# Places of foreign annotations

A foreign annotation leaves a place where it stood. This module follows such places through the
building of an annotation:

* `Value.HasForeign`: the place of a foreign annotation is left in a value, at any depth;
* `Value.Sound`: every key of a map stands once, and the fields for text of an annotation hold text,
  at any depth. Whatever is read is sound;
* `fit_keeps`: fitting a sound value neither takes such a place away nor makes one. Scalars refuse
  it, and no entry of a map is lost;
* `check_keeps`: so the check keeps what has been gathered;
* `addAll_leaves_iff`: what has been gathered under a name has a place in it exactly if an argument
  has brought one there and no argument behind it enters another value under the name.

Main statement: `build_hasForeign_iff`.
-/

namespace Marginalia

/-! ## 1. Places -/

/-- **The place of a foreign annotation is left in a value**, at any depth. -/
inductive Value.HasForeign : Value → Prop
  | foreign : HasForeign .foreign
  | list {vs : List Value} {v : Value} (hv : v ∈ vs) (h : HasForeign v) : HasForeign (.list vs)
  | pair {name : String} {v : Value} (h : HasForeign v) : HasForeign (.pair name v)
  | map {es : List (Key × Value)} {e : Key × Value} (he : e ∈ es) (h : HasForeign e.2) :
      HasForeign (.map es)
  | note {a : Note} {e : Field × Value} (he : e ∈ a.fields) (h : HasForeign e.2) :
      HasForeign (.note a)

/-- The place of a foreign annotation is left in an annotation. -/
def Note.HasForeign (a : Note) : Prop := ∃ e ∈ a.fields, e.2.HasForeign

namespace Value

@[simp] theorem hasForeign_foreign : Value.foreign.HasForeign := .foreign

@[simp] theorem hasForeign_list {vs : List Value} :
    (Value.list vs).HasForeign ↔ ∃ v ∈ vs, v.HasForeign := by
  constructor
  · intro h
    cases h with
    | list hv h => exact ⟨_, hv, h⟩
  · rintro ⟨v, hv, h⟩
    exact .list hv h

@[simp] theorem hasForeign_pair {name : String} {v : Value} :
    (Value.pair name v).HasForeign ↔ v.HasForeign := by
  constructor
  · intro h
    cases h with
    | pair h => exact h
  · exact .pair

@[simp] theorem hasForeign_map {es : List (Key × Value)} :
    (Value.map es).HasForeign ↔ ∃ e ∈ es, e.2.HasForeign := by
  constructor
  · intro h
    cases h with
    | map he h => exact ⟨_, he, h⟩
  · rintro ⟨e, he, h⟩
    exact .map he h

@[simp] theorem hasForeign_note {a : Note} : (Value.note a).HasForeign ↔ a.HasForeign := by
  constructor
  · intro h
    cases h with
    | note he h => exact ⟨_, he, h⟩
  · rintro ⟨e, he, h⟩
    exact .note he h

@[simp] theorem not_hasForeign_null : ¬Value.null.HasForeign := nofun

@[simp] theorem not_hasForeign_bool (b : Bool) : ¬(Value.bool b).HasForeign := nofun

@[simp] theorem not_hasForeign_int (n : Int) : ¬(Value.int n).HasForeign := nofun

@[simp] theorem not_hasForeign_real (x : Number.Binary64) : ¬(Value.real x).HasForeign := nofun

@[simp] theorem not_hasForeign_text (s : String) : ¬(Value.text s).HasForeign := nofun

@[simp] theorem not_hasForeign_shared (origin : String) (f : Field) :
    ¬(Value.shared origin f).HasForeign := nofun

@[simp] theorem not_hasForeign_ofText? (s : Option String) : ¬(Value.ofText? s).HasForeign := by
  cases s <;> exact nofun

/-- Whether a value has no parts. -/
def isScalar : Value → Bool
  | .list _ | .pair _ _ | .map _ | .note _ => false
  | _ => true

/-- Text, or nothing. -/
def IsWord (v : Value) : Prop := v = .null ∨ ∃ s, v = .text s

/-- **As values are read**: every key of a map stands once, and the fields for text of an annotation
    hold text or nothing, at any depth. -/
inductive Sound : Value → Prop
  | scalar {v : Value} (h : v.isScalar = true) : Sound v
  | list {vs : List Value} (items : ∀ v ∈ vs, Sound v) : Sound (.list vs)
  | pair {name : String} {v : Value} (value : Sound v) : Sound (.pair name v)
  | map {es : List (Key × Value)} (keys : (es.map (·.1)).Nodup) (entries : ∀ e ∈ es, Sound e.2) :
      Sound (.map es)
  | note {a : Note} (words : ∀ e ∈ a.fields, e.1.shape = .text → e.2.IsWord)
      (slots : ∀ e ∈ a.fields, Sound e.2) : Sound (.note a)

theorem sound_list {vs : List Value} : (Value.list vs).Sound ↔ ∀ v ∈ vs, v.Sound := by
  constructor
  · intro h
    cases h with
    | scalar h => cases h
    | list items => exact items
  · exact .list

end Value

/-- The fields for text of an annotation hold text or nothing. -/
def Note.Worded (a : Note) : Prop := ∀ e ∈ a.fields, e.1.shape = .text → e.2.IsWord

/-- An annotation as it is read. -/
structure Note.Sound (a : Note) : Prop where
  words : a.Worded
  slots : ∀ e ∈ a.fields, e.2.Sound

theorem Value.sound_note {a : Note} : (Value.note a).Sound ↔ a.Sound := by
  constructor
  · intro h
    cases h with
    | scalar h => cases h
    | note words slots => exact ⟨words, slots⟩
  · intro h
    exact .note h.words h.slots

/-! ## 2. Fitting keeps places -/

/-- A fitted value is sound, and has a place where the first one had one. -/
structure Value.Keeps (v w : Value) : Prop where
  sound : w.Sound
  hasForeign_iff : w.HasForeign ↔ v.HasForeign

theorem Value.Keeps.refl {v : Value} (h : v.Sound) : v.Keeps v := ⟨h, Iff.rfl⟩

/-- Fitting a value keeps its places, into whatever shape it fits. -/
def Value.FitKeeps (v : Value) : Prop :=
  ∀ {shape : Shape} {w : Value}, fit shape v = .ok w → v.Keeps w

theorem Value.hasForeign_of_isScalar {v : Value} (h : v.isScalar = true) :
    v.HasForeign ↔ v = .foreign := by
  cases v <;> simp_all [Value.isScalar]

theorem Fitted.eq_ok_of_ofMisfit {v w : Value} {r : Except Misfit Value}
    (h : Fitted.ofMisfit v r = .ok w) : r = .ok w := by
  cases r with
  | error m => cases h
  | ok u =>
      cases h
      rfl

/-- What is read as a truth value is one, and was no foreign annotation. -/
theorem fitFlag_eq_ok {v w : Value} (h : fitFlag v = .ok w) :
    (∃ b, w = .bool b) ∧ v ≠ .foreign := by
  unfold fitFlag at h
  split at h
  · cases h
    exact ⟨⟨_, rfl⟩, nofun⟩
  · obtain ⟨b, -, rfl⟩ := exists_of_map_ok h
    exact ⟨⟨b, rfl⟩, nofun⟩
  · obtain ⟨b, -, rfl⟩ := exists_of_map_ok h
    exact ⟨⟨b, rfl⟩, nofun⟩
  · split at h
    · cases h
      exact ⟨⟨_, rfl⟩, nofun⟩
    · cases h
  · cases h

/-- What is read as a whole number is one, and was no foreign annotation. -/
theorem fitWhole_eq_ok {v w : Value} (h : fitWhole v = .ok w) :
    (∃ n, w = .int n) ∧ v ≠ .foreign := by
  unfold fitWhole at h
  split at h
  · cases h
    exact ⟨⟨_, rfl⟩, nofun⟩
  · cases h
    exact ⟨⟨_, rfl⟩, nofun⟩
  · obtain ⟨n, -, rfl⟩ := exists_of_map_ok h
    exact ⟨⟨n, rfl⟩, nofun⟩
  · split at h
    · cases h
      exact ⟨⟨_, rfl⟩, nofun⟩
    · cases h
    · cases h
  · cases h

/-- A scalar comes to a scalar, and to a foreign annotation's place only where anything can
    stand. -/
theorem fitScalar_keeps {v : Value} (hv : v.isScalar = true) {shape : Shape} {w : Value}
    (h : fitScalar shape v = .ok w) : v.Keeps w := by
  have hforeign := Value.hasForeign_of_isScalar hv
  cases shape with
  | text =>
      have hfit := Fitted.eq_ok_of_ofMisfit h
      unfold fitText at hfit
      split at hfit
      · cases hfit
        exact .refl (.scalar rfl)
      · cases hfit
  | flag =>
      obtain ⟨⟨b, rfl⟩, hne⟩ := fitFlag_eq_ok (Fitted.eq_ok_of_ofMisfit h)
      exact ⟨.scalar rfl, iff_of_false nofun (mt hforeign.mp hne)⟩
  | whole =>
      obtain ⟨⟨n, rfl⟩, hne⟩ := fitWhole_eq_ok (Fitted.eq_ok_of_ofMisfit h)
      exact ⟨.scalar rfl, iff_of_false nofun (mt hforeign.mp hne)⟩
  | anything =>
      cases h
      exact .refl (.scalar hv)
  | list item => cases h
  | child k => cases h

theorem fitScalar_text_eq_ok {v w : Value} (h : fitScalar .text v = .ok w) : ∃ s, w = .text s := by
  have hfit := Fitted.eq_ok_of_ofMisfit h
  unfold fitText at hfit
  split at hfit
  · cases hfit
    exact ⟨_, rfl⟩
  · cases hfit

/-- Where text is wanted stands text. -/
theorem fit_text_eq_ok {v w : Value} (h : fit .text v = .ok w) : ∃ s, w = .text s := by
  unfold fit at h
  cases v with
  | list vs => cases h
  | pair name v => cases h
  | map es => cases h
  | note a => cases h
  | _ => exact fitScalar_text_eq_ok h

theorem fitItems_text_eq_ok {vs ws : List Value} {i : Nat} (h : fitItems .text i vs = .ok ws) :
    ∀ w ∈ ws, ∃ s, w = .text s := by
  induction vs generalizing i ws with
  | nil =>
      rw [fitItems] at h
      cases h
      exact List.forall_mem_nil _
  | cons v vs ih =>
      rw [fitItems] at h
      obtain ⟨u, us, hfirst, hrest, rfl⟩ := Fitted.exists_of_both_ok h
      have hu := fit_text_eq_ok (Fitted.eq_ok_of_under hfirst)
      exact List.forall_mem_cons.mpr ⟨hu, ih hrest⟩

/-- Where texts are wanted no place is left. -/
theorem not_hasForeign_of_fit_texts {v w : Value} (h : fit (.list .text) v = .ok w) :
    ¬w.HasForeign := by
  unfold fit at h
  cases v with
  | list vs =>
      obtain ⟨ws, hws, rfl⟩ := exists_of_map_ok h
      rw [Value.hasForeign_list]
      rintro ⟨w, hw, hforeign⟩
      obtain ⟨s, rfl⟩ := fitItems_text_eq_ok hws w hw
      cases hforeign
  | pair name v =>
      obtain ⟨x, y, hx, hy, rfl⟩ := Fitted.exists_of_both_ok h
      obtain ⟨s, rfl⟩ := fitScalar_text_eq_ok (Fitted.eq_ok_of_under hx)
      obtain ⟨t, rfl⟩ := fit_text_eq_ok (Fitted.eq_ok_of_under hy)
      simp
  | map es => cases h
  | note a => cases h
  | _ => cases h

theorem fitItems_keeps {item : Shape} {vs ws : List Value} (h : ∀ v ∈ vs, v.FitKeeps) {i : Nat}
    (hws : fitItems item i vs = .ok ws) : (Value.list vs).Keeps (.list ws) := by
  induction vs generalizing i ws with
  | nil =>
      rw [fitItems] at hws
      cases hws
      exact .refl (.list (List.forall_mem_nil _))
  | cons v vs ih =>
      obtain ⟨hv, hmore⟩ := List.forall_mem_cons.mp h
      rw [fitItems] at hws
      obtain ⟨u, us, hfirst, hrest, rfl⟩ := Fitted.exists_of_both_ok hws
      obtain ⟨hu, huv⟩ := hv (Fitted.eq_ok_of_under hfirst)
      obtain ⟨hsound, hiff⟩ := ih hmore hrest
      refine ⟨.list (List.forall_mem_cons.mpr ⟨hu, Value.sound_list.mp hsound⟩), ?_⟩
      simp only [Value.hasForeign_list] at hiff
      simp [huv, hiff]

/-! ## 3. The check keeps places -/

section Check

variable {k : Kind} {es : List (Key × Value)}

/-- What an attribute admits keeps its places. -/
theorem admit_keeps {b : Attribute} {v w : Value} (hv : v.FitKeeps) (h : b.admit v = .ok w) :
    v.Keeps w := by
  unfold Attribute.admit at h
  split at h
  · rename_i hnull
    cases h
    have hv : v = .null := Value.isNull_iff.mp (Bool.and_eq_true_iff.mp hnull).1
    rw [hv]
    exact .refl (.scalar rfl)
  · exact hv h

/-- The ties to partial definitions admit no place. -/
theorem exists_field_of_admit {b : Attribute} {v w : Value} (h : b.admit v = .ok w)
    (hw : w.HasForeign) : ∃ f, b = .field f := by
  unfold Attribute.admit at h
  split at h
  · cases h
    cases hw
  · cases b with
    | partialId =>
        obtain ⟨s, rfl⟩ := fit_text_eq_ok h
        cases hw
    | partials => exact absurd hw (not_hasForeign_of_fit_texts h)
    | field f => exact ⟨f, rfl⟩

/-- A field for text admits text or nothing. -/
theorem isWord_of_admit {f : Field} (hf : f.shape = .text) {v w : Value}
    (h : Attribute.admit (.field f) v = .ok w) : w.IsWord := by
  unfold Attribute.admit at h
  split at h
  · cases h
    exact .inl rfl
  · have hfit : fit f.shape v = .ok w := h
    rw [hf] at hfit
    exact .inr (fit_text_eq_ok hfit)

/-- An attribute admits a written value, or there is something wrong with it. -/
theorem admit_faults {b : Attribute} {v : Value} (hv : v.Written) {faults : List FieldFault}
    (h : b.admit v = .error faults) : faults ≠ [] := by
  have hgives := fit_written hv b.shape
  unfold Attribute.admit at h
  split at h
  · cases h
  · rw [h] at hgives
    exact hgives

/-- What counts for an attribute of a check without faults, and what it comes to. -/
theorem exists_entry_of_chosen? (hes : ∀ e ∈ es, e.2.Written) (hfaults : ∀ b ∈ k.attributes,
    (b.fitted (readEntries k es)).faults = []) {b : Attribute} (hb : b ∈ k.attributes) {r : Reading}
    (hr : b.chosen? (readEntries k es) = some r) :
    ∃ e ∈ es, e.1 = r.key ∧ b.admit e.2 = .ok (b.value (readEntries k es)) := by
  obtain ⟨hmem, hattribute⟩ := Attribute.mem_of_chosen? hb hr
  rw [readEntries_eq_map] at hmem
  obtain ⟨e, he, rfl⟩ := List.mem_map.mp hmem
  have hattribute : k.attribute? e.1.toText = some b := hattribute
  have hfitted : b.fitted (readEntries k es) =
      Fitted.under (.attribute e.1.toText) ( b.admit e.2) := by
    unfold Attribute.fitted
    rw [hr]
    unfold Kind.reading
    dsimp only
    rw [hattribute]
  refine ⟨e, he, rfl, ?_⟩
  have hnone := hfaults b hb
  rw [hfitted] at hnone
  unfold Attribute.value
  rw [hfitted]
  cases hadmitted : b.admit e.2 with
  | ok w => rfl
  | error faults =>
      rw [hadmitted] at hnone
      exact absurd (List.map_eq_nil_iff.mp hnone) (admit_faults (hes e he) hadmitted)

/-- An attribute that nothing counts for has its default. -/
theorem value_of_chosen?_none {b : Attribute} {readings : List Reading}
    (h : b.chosen? readings = none) :
    b.value readings = if b.refusesNull then .list [] else .null := by
  unfold Attribute.value Attribute.fitted
  rw [h]

theorem Field.alwaysList_of_text {f : Field} (h : f.shape = .text) : f.alwaysList = false := by
  revert h
  cases f <;> decide

/-- **The check keeps places**, if every key stands once. -/
theorem check_keeps (hkeys : (es.map (·.1)).Nodup) (hwritten : ∀ e ∈ es, e.2.Written)
    (hes : ∀ e ∈ es, e.2.FitKeeps) {a : Note} (h : k.check es = .ok a) :
    a.Sound ∧ (a.HasForeign ↔ ∃ e ∈ es, e.2.HasForeign) := by
  obtain ⟨hfaults, hleft, rfl⟩ := Kind.check_eq_ok_iff.mp h
  -- what an attribute is comes from an entry, or is its default
  have hsource : ∀ b ∈ k.attributes, (b.value (readEntries k es)).Sound ∧
      ((b.value (readEntries k es)).HasForeign → ∃ e ∈ es, e.2.HasForeign) := by
    intro b hb
    cases hchosen : b.chosen? (readEntries k es) with
    | none =>
        rw [value_of_chosen?_none hchosen]
        split
        · exact ⟨.list nofun, by simp⟩
        · exact ⟨.scalar rfl, by simp⟩
    | some r =>
        obtain ⟨e, he, -, hadmitted⟩ := exists_entry_of_chosen? hwritten hfaults hb hchosen
        obtain ⟨hsound, hiff⟩ := admit_keeps (hes e he) hadmitted
        exact ⟨hsound, fun hw => ⟨e, he, hiff.mp hw⟩⟩
  have hfield : ∀ f ∈ k.fields, Attribute.field f ∈ k.attributes := fun f hf =>
    Kind.field_mem_attributes.mpr hf
  refine ⟨⟨fun d hd hshape => ?_, fun d hd => ?_⟩, ⟨?_, ?_⟩⟩
  · obtain ⟨f, hf, rfl⟩ := List.mem_map.mp hd
    cases hchosen : (Attribute.field f).chosen? (readEntries k es) with
    | none =>
        have hnull : (Attribute.field f).refusesNull = false := Field.alwaysList_of_text hshape
        refine .inl ?_
        show (Attribute.field f).value (readEntries k es) = .null
        rw [value_of_chosen?_none hchosen, hnull]
        rfl
    | some r =>
        obtain ⟨e, -, -, hadmitted⟩ :=
          exists_entry_of_chosen? hwritten hfaults (hfield f hf) hchosen
        exact isWord_of_admit hshape hadmitted
  · obtain ⟨f, hf, rfl⟩ := List.mem_map.mp hd
    exact (hsource _ (hfield f hf)).1
  · rintro ⟨d, hd, hforeign⟩
    obtain ⟨f, hf, rfl⟩ := List.mem_map.mp hd
    exact (hsource _ (hfield f hf)).2 hforeign
  · rintro ⟨e, he, hforeign⟩
    -- no entry is left over, so this one counts for an attribute
    obtain ⟨b, hb, r, hchosen, hkey⟩ := exists_chosen_of_mem hleft (List.mem_map_of_mem he)
    obtain ⟨e', he', hkey', hadmitted⟩ := exists_entry_of_chosen? hwritten hfaults hb hchosen
    obtain rfl : e' = e := List.inj_on_of_nodup_map hkeys he' he (hkey'.trans hkey)
    have hvalue := (admit_keeps (hes e' he) hadmitted).hasForeign_iff.mpr hforeign
    obtain ⟨f, rfl⟩ := exists_field_of_admit hadmitted hvalue
    exact ⟨_, List.mem_map_of_mem (Kind.field_mem_attributes.mp hb), hvalue⟩

end Check

/-- The attributes of an annotation as a list have its places. -/
theorem fitAttributes_keeps {a : Note} (ha : a.Sound) {item : Shape} {w : Value}
    (h : fitAttributes item a = .ok w) : (Value.note a).Keeps w := by
  unfold fitAttributes at h
  split at h
  · cases h
    refine ⟨.list fun v hv => ?_, ?_⟩
    · obtain ⟨e, he, rfl⟩ := List.mem_map.mp hv
      refine .pair ?_
      rcases List.mem_cons.mp he with rfl | he
      · cases a.partialId <;> exact .scalar rfl
      rcases List.mem_cons.mp he with rfl | he
      · refine .list fun v hv => ?_
        obtain ⟨s, -, rfl⟩ := List.mem_map.mp hv
        exact .scalar rfl
      · obtain ⟨slot, hslot, rfl⟩ := List.mem_map.mp he
        exact ha.slots slot hslot
    · simp only [Note.attributeValues, Value.hasForeign_list, Value.hasForeign_note]
      constructor
      · rintro ⟨v, hv, hforeign⟩
        obtain ⟨e, he, rfl⟩ := List.mem_map.mp hv
        rw [Value.hasForeign_pair] at hforeign
        rcases List.mem_cons.mp he with rfl | he
        · exact absurd hforeign (Value.not_hasForeign_ofText? _)
        rcases List.mem_cons.mp he with rfl | he
        · obtain ⟨w, hw, hforeign⟩ := Value.hasForeign_list.mp hforeign
          obtain ⟨s, -, rfl⟩ := List.mem_map.mp hw
          exact absurd hforeign (Value.not_hasForeign_text s)
        · obtain ⟨slot, hslot, rfl⟩ := List.mem_map.mp he
          exact ⟨slot, hslot, hforeign⟩
      · rintro ⟨slot, hslot, hforeign⟩
        refine ⟨.pair slot.1.key slot.2, List.mem_map.mpr ⟨(slot.1.key, slot.2), ?_, rfl⟩,
          .pair hforeign⟩
        exact List.mem_cons_of_mem _ (List.mem_cons_of_mem _ (List.mem_map_of_mem hslot))
  · cases h

/-- **Fitting keeps places.** -/
theorem fit_keeps {v : Value} (hv : v.Sound) (hwritten : v.Written) : v.FitKeeps := by
  induction hv with
  | @scalar v h =>
      intro shape w hw
      unfold fit at hw
      cases v <;> first | exact fitScalar_keeps h hw | cases h
  | @list vs items ih =>
      have hitems := Value.written_list.mp hwritten
      intro shape w hw
      unfold fit at hw
      cases shape with
      | list item =>
          obtain ⟨ws, hws, rfl⟩ := exists_of_map_ok hw
          exact fitItems_keeps (fun v hv => ih v hv (hitems v hv)) hws
      | anything =>
          cases hw
          exact .refl (.list items)
      | _ => cases hw
  | @pair name v value ih =>
      intro shape w hw
      unfold fit at hw
      cases shape with
      | list item =>
          obtain ⟨x, y, hx, hy, rfl⟩ := Fitted.exists_of_both_ok hw
          have hv : v.Written := by
            cases hwritten with
            | pair h => exact h
          obtain ⟨hxd, hxf⟩ := fitScalar_keeps (v := .text name) rfl (Fitted.eq_ok_of_under hx)
          obtain ⟨hyd, hyf⟩ := ih hv (Fitted.eq_ok_of_under hy)
          refine ⟨.list (List.forall_mem_cons.mpr ⟨hxd, List.forall_mem_singleton.mpr hyd⟩), ?_⟩
          simp [hxf, hyf]
      | anything =>
          cases hw
          exact .refl (.pair value)
      | _ => cases hw
  | @map es keys entries ih =>
      have hentries : ∀ e ∈ es, e.2.Written := by
        cases hwritten with
        | map h => exact h
      intro shape w hw
      unfold fit at hw
      cases shape with
      | child k =>
          obtain ⟨a, ha, rfl⟩ := exists_of_map_ok hw
          obtain ⟨hsound, hiff⟩ :=
            check_keeps keys hentries (fun e he => ih e he (hentries e he)) ha
          exact ⟨Value.sound_note.mpr hsound, by simp [hiff]⟩
      | anything =>
          cases hw
          exact .refl (.map keys entries)
      | _ => cases hw
  | @note a words slots ih =>
      intro shape w hw
      unfold fit at hw
      cases shape with
      | child k =>
          dsimp only at hw
          split at hw
          · cases hw
            exact .refl (.note words slots)
          · cases hw
      | list item => exact fitAttributes_keeps ⟨words, slots⟩ hw
      | anything =>
          cases hw
          exact .refl (.note words slots)
      | _ => cases hw

/-! ## 4. Entering keeps keys apart -/

theorem Key.same_self (key : Key) : key.same key = true := by
  cases key <;> simp [Key.same, Number.Binary64.sameNumber]

theorem nodup_putEntry {es : List (Key × Value)} (h : (es.map (·.1)).Nodup) (key : Key)
    (v : Value) : ((putEntry es key v).map (·.1)).Nodup := by
  unfold putEntry
  split
  · have hkeys : (es.map fun e => if e.1.same key then (e.1, v) else e).map (·.1) =
        es.map (·.1) := by
      rw [List.map_map]
      refine List.map_congr_left fun e _ => ?_
      show (if e.1.same key = true then (e.1, v) else e).1 = e.1
      split <;> rfl
    rw [hkeys]
    exact h
  · rename_i hnew
    rw [List.map_append, List.nodup_append]
    refine ⟨h, List.nodup_singleton _, ?_⟩
    rintro own hown _ hkey rfl
    obtain ⟨e, he, rfl⟩ := List.mem_map.mp hown
    obtain rfl := List.mem_singleton.mp hkey
    exact hnew (List.any_eq_true.mpr ⟨e, he, Key.same_self e.1⟩)

theorem mem_putEntry {es : List (Key × Value)} {key : Key} {v : Value} {e : Key × Value}
    (h : e ∈ putEntry es key v) : e.2 = v ∨ e ∈ es := by
  unfold putEntry at h
  split at h
  · obtain ⟨d, hd, rfl⟩ := List.mem_map.mp h
    split
    · exact .inl rfl
    · exact .inr hd
  · rcases List.mem_append.mp h with h | h
    · exact .inr h
    · exact .inl (congrArg Prod.snd (List.mem_singleton.mp h))

/-- Every name stands once in what has been gathered, and so does every key in the values. -/
structure Gathered.Sound (g : Gathered) : Prop where
  keys : (g.attributes.map (·.1)).Nodup
  values : ∀ e ∈ g.attributes, e.2.Sound

theorem Gathered.Sound.put {g : Gathered} (h : g.Sound) (name : String) {v : Value}
    (hv : v.Sound) : (g.put name v).Sound where
  keys := nodup_putEntry h.keys _ v
  values e he := by
    rcases mem_putEntry he with rfl | he
    · exact hv
    · exact h.values e he

theorem Gathered.mem_of_said {g : Gathered} {name : String} {v : Value} (h : g.said name = some v) :
    (.text name, v) ∈ g.attributes := mem_of_lookup h

/-! ## 5. Gathering -/

namespace Effect

/-- The name under which an effect enters or adds values. -/
def name? : Effect → Option String
  | .put name _ | .extend name _ => some name
  | _ => none

/-- The values that an effect enters or adds. -/
def values : Effect → List Value
  | .put _ v => [v]
  | .extend _ vs => vs
  | _ => []

/-- The effect takes the place of what has been gathered under a name. -/
def Enters (name : String) : Effect → Prop
  | .put own _ => own = name
  | _ => False

/-- The effect brings the place of a foreign annotation under a name. -/
def Brings (name : String) (e : Effect) : Prop :=
  e.name? = some name ∧ ∃ v ∈ e.values, v.HasForeign

end Effect

/-- The place of a foreign annotation is left in what has been gathered under a name. -/
def Gathered.Leaves (g : Gathered) (name : String) : Prop :=
  ∃ v, g.said name = some v ∧ v.HasForeign

theorem Gathered.leaves_put_self {g : Gathered} {name : String} {v : Value} :
    (g.put name v).Leaves name ↔ v.HasForeign := by
  simp [Gathered.Leaves]

theorem Gathered.leaves_put_of_ne {g : Gathered} {name other : String} {v : Value}
    (h : other ≠ name) : (g.put name v).Leaves other ↔ g.Leaves other := by
  simp [Gathered.Leaves, Gathered.said_put_of_ne g v h]

/-- **One argument**: a place is there if it is brought, or was there and is not taken. -/
theorem apply_leaves_iff {e : Effect} {g next : Gathered} (h : e.apply g = .ok next)
    (name : String) : next.Leaves name ↔ e.Brings name ∨ (g.Leaves name ∧ ¬e.Enters name) := by
  cases e with
  | refer ids =>
      cases h
      simp [Effect.Brings, Effect.name?, Effect.Enters, Gathered.Leaves, Gathered.said]
  | put own v =>
      cases h
      by_cases hname : own = name
      · subst hname
        simp [Gathered.leaves_put_self, Effect.Brings, Effect.name?, Effect.values, Effect.Enters]
      · rw [Gathered.leaves_put_of_ne (Ne.symm hname)]
        simp [Effect.Brings, Effect.name?, Effect.Enters, hname]
  | extend own vs =>
      obtain ⟨hopen, rfl⟩ := Gathered.extend_eq_ok h
      by_cases hname : own = name
      · subst hname
        have hsaid : g.Leaves own ↔ ∃ v ∈ ((g.said own).getD (.list [])).items, v.HasForeign := by
          rcases hopen with hnone | ⟨ws, hlist⟩
          · simp [Gathered.Leaves, hnone, Value.items]
          · simp [Gathered.Leaves, hlist, Value.items]
        rw [Gathered.leaves_put_self, hsaid]
        simp only [Value.hasForeign_list, List.mem_append, or_and_right, exists_or, Effect.Brings,
          Effect.name?, Effect.values, Effect.Enters, not_false_eq_true, and_true, true_and]
        exact or_comm
      · rw [Gathered.leaves_put_of_ne (Ne.symm hname)]
        simp [Effect.Brings, Effect.name?, Effect.Enters, hname]
  | refuse fault => cases h

/-- **All arguments**: a place is there if an argument has brought it and none behind takes it. -/
theorem addAll_leaves_iff {k : Kind} {g last : Gathered} {arguments : List Argument}
    (h : g.addAll k arguments = .ok last) (name : String) :
    last.Leaves name ↔
      (∃ before arg after, arguments = before ++ arg :: after ∧ (arg.effect k).Brings name ∧
        ∀ later ∈ after, ¬(later.effect k).Enters name) ∨
      (g.Leaves name ∧ ∀ arg ∈ arguments, ¬(arg.effect k).Enters name) := by
  induction arguments generalizing g with
  | nil =>
      cases h
      simp
  | cons arg arguments ih =>
      rw [Gathered.addAll_cons] at h
      obtain ⟨next, hnext, hlast⟩ := exists_of_bind_ok h
      rw [ih hlast, apply_leaves_iff hnext, List.forall_mem_cons]
      constructor
      · rintro (⟨before, other, after, rfl, hbrings, hafter⟩ | ⟨hbrings | ⟨hleft, hfirst⟩, hmore⟩)
        · exact .inl ⟨arg :: before, other, after, rfl, hbrings, hafter⟩
        · exact .inl ⟨[], arg, arguments, rfl, hbrings, hmore⟩
        · exact .inr ⟨hleft, hfirst, hmore⟩
      · rintro (⟨before, other, after, hsplit, hbrings, hafter⟩ | ⟨hleft, hfirst, hmore⟩)
        · cases before with
          | nil =>
              obtain ⟨rfl, rfl⟩ := List.cons.inj hsplit
              exact .inr ⟨.inl hbrings, hafter⟩
          | cons own before =>
              obtain ⟨rfl, rfl⟩ := List.cons.inj hsplit
              exact .inl ⟨before, other, after, rfl, hbrings, hafter⟩
        · exact .inr ⟨.inr ⟨hleft, hfirst⟩, hmore⟩

/-! ## 6. Building -/

/-- The value of an argument. -/
def Argument.value : Argument → Value
  | .named _ v | .positional v => v

/-- What a group of members says is its members. -/
theorem Note.Written.members {a : Note} (h : a.Written) (hgroup : a.kind.isGroup = true) :
    ∃ vs, a.fields = [(.members, .list vs)] ∧ a.unwrapped = vs := by
  have hfields : a.kind.fields = [.members] := by
    revert hgroup
    cases a.kind <;> decide
  have hkeys : a.fields.map (·.1) = [.members] := h.nested.slotted.keys_eq.trans hfields
  have hmem : Field.members ∈ a.kind.fields := by
    rw [hfields]
    exact List.mem_cons_self
  obtain ⟨vs, hvs⟩ := h.nested.slotted.lists .members hmem rfl
  obtain ⟨e, he, hkey⟩ := List.map_eq_singleton_iff.mp hkeys
  obtain ⟨f, v⟩ := e
  obtain rfl : f = .members := hkey
  have hget : a.get .members = v := by
    unfold Note.get
    rw [he, List.lookup_cons_self]
    rfl
  refine ⟨vs, ?_, ?_⟩
  · rw [he, ← hget, hvs]
  · rw [Note.unwrapped, if_pos hgroup, hvs]
    rfl

/-- What a nested annotation stands for has the places that it has. -/
theorem Note.Written.unwrapped_keeps {a : Note} (h : a.Written)
    (hsound : (Value.note a).Sound) :
    (∀ v ∈ a.unwrapped, v.Sound) ∧ ((∃ v ∈ a.unwrapped, v.HasForeign) ↔ a.HasForeign) := by
  cases hgroup : a.kind.isGroup with
  | true =>
      obtain ⟨vs, hfields, hvs⟩ := h.members hgroup
      have hslots := (Value.sound_note.mp hsound).slots
      rw [hfields] at hslots
      rw [hvs, Note.HasForeign, hfields]
      exact ⟨Value.sound_list.mp (hslots _ List.mem_cons_self), by simp⟩
  | false =>
      have hself : a.unwrapped = [.note a] := by rw [Note.unwrapped, hgroup]; rfl
      rw [hself]
      exact ⟨List.forall_mem_singleton.mpr hsound, by simp⟩

/-- An argument brings a place if its value has one, and it has a name to be gathered under. -/
theorem Argument.effect_keeps {k : Kind} {arg : Argument} (hwritten : arg.Written)
    (hsound : arg.value.Sound) :
    (∀ v ∈ (arg.effect k).values, v.Sound) ∧
      ∀ name, (arg.effect k).Brings name ↔
        (arg.effect k).name? = some name ∧ arg.value.HasForeign := by
  have hput : ∀ (own : String) (v : Value), v.Sound →
      (∀ w ∈ (Effect.put own v).values, w.Sound) ∧
        ∀ name, (Effect.put own v).Brings name ↔
          (Effect.put own v).name? = some name ∧ v.HasForeign := by
    intro own v hv
    exact ⟨List.forall_mem_singleton.mpr hv, fun name => by simp [Effect.Brings, Effect.values]⟩
  have hnone : ∀ e : Effect, e.values = [] → e.name? = none →
      (∀ w ∈ e.values, w.Sound) ∧
        ∀ name, e.Brings name ↔ e.name? = some name ∧ arg.value.HasForeign := by
    intro e hvalues hname
    simp [Effect.Brings, hvalues, hname]
  cases arg with
  | named own v => exact hput own v hsound
  | positional v =>
      cases v with
      | note a =>
          have ha : a.Written := Value.written_note.mp hwritten
          show (∀ v ∈ (a.effect k).values, v.Sound) ∧ ∀ name, (a.effect k).Brings name ↔
            (a.effect k).name? = some name ∧ (Value.note a).HasForeign
          rcases a.effect_cases k with ⟨-, heffect⟩ | ⟨fault, heffect⟩ | ⟨f, hfield⟩
          · rw [heffect]
            exact hnone _ rfl rfl
          · rw [heffect]
            exact hnone _ rfl rfl
          · rw [Note.effect_of_nestField? hfield]
            split
            · obtain ⟨hvalues, hiff⟩ := ha.unwrapped_keeps hsound
              refine ⟨hvalues, fun name => ?_⟩
              rw [Value.hasForeign_note, ← hiff]
              exact Iff.rfl
            · exact hput f.key (.note a) hsound
      | _ =>
          unfold Argument.effect
          cases k.defaultField? with
          | none => exact hnone _ rfl rfl
          | some f => exact hput f.key _ hsound

theorem Gathered.Sound.apply {e : Effect} {g next : Gathered} (h : g.Sound)
    (he : ∀ v ∈ e.values, v.Sound) (hnext : e.apply g = .ok next) : next.Sound := by
  cases e with
  | refer ids =>
      cases hnext
      exact ⟨h.keys, h.values⟩
  | put name v =>
      cases hnext
      exact h.put name (he v List.mem_cons_self)
  | extend name vs =>
      obtain ⟨hopen, rfl⟩ := Gathered.extend_eq_ok hnext
      refine h.put name (.list (List.forall_mem_append.mpr ⟨?_, he⟩))
      rcases hopen with hnone | ⟨ws, hlist⟩
      · rw [hnone]
        exact nofun
      · rw [hlist]
        exact Value.sound_list.mp (h.values _ (Gathered.mem_of_said hlist))
  | refuse fault => cases hnext

theorem Gathered.Sound.addAll {k : Kind} {arguments : List Argument}
    (hwritten : ∀ arg ∈ arguments, arg.Written)
    (hsound : ∀ arg ∈ arguments, arg.value.Sound) {g last : Gathered} (h : g.Sound)
    (hlast : g.addAll k arguments = .ok last) : last.Sound := by
  induction arguments generalizing g with
  | nil =>
      cases hlast
      exact h
  | cons arg arguments ih =>
      obtain ⟨harg, hmore⟩ := List.forall_mem_cons.mp hwritten
      obtain ⟨hvalue, hvalues⟩ := List.forall_mem_cons.mp hsound
      rw [Gathered.addAll_cons] at hlast
      obtain ⟨next, hnext, hrest⟩ := exists_of_bind_ok hlast
      exact ih hmore hvalues (h.apply (Argument.effect_keeps harg hvalue).1 hnext) hrest

/-- **An annotation has the place of a foreign one exactly if an argument brings it and no argument
    behind takes it.** -/
theorem build_hasForeign_iff {k : Kind} {arguments : List Argument}
    (hwritten : ∀ arg ∈ arguments, arg.Written)
    (hsound : ∀ arg ∈ arguments, arg.value.Sound) {a : Note}
    (h : Note.build k arguments = .ok a) :
    a.Sound ∧
      (a.HasForeign ↔ ∃ before arg after name, arguments = before ++ arg :: after ∧
        (arg.effect k).name? = some name ∧ arg.value.HasForeign ∧
        ∀ later ∈ after, ¬(later.effect k).Enters name) := by
  obtain ⟨g, b, hg, hb, rfl⟩ := Note.build_eq_ok h
  have hempty : Gathered.empty.Sound := ⟨List.nodup_nil, nofun⟩
  have hgathered := hempty.addAll hwritten hsound hg
  have hgwritten : g.Written := Gathered.addAll_written arguments hwritten .empty nofun hg
  have htextual : g.Textual := Gathered.Textual.addAll (g := .empty) nofun hg
  obtain ⟨hbuilt, hiff⟩ := check_keeps hgathered.keys hgwritten
    (fun e he => fit_keeps (hgathered.values e he) (hgwritten e he)) hb
  refine ⟨⟨hbuilt.words, hbuilt.slots⟩, ?_⟩
  -- what has been gathered is known by what stands under each name
  have hsaid : (∃ e ∈ g.attributes, e.2.HasForeign) ↔ ∃ name, g.Leaves name := by
    constructor
    · rintro ⟨e, he, hforeign⟩
      obtain ⟨name, hname⟩ := htextual e he
      refine ⟨name, e.2, ?_, hforeign⟩
      rw [Gathered.said, ← hname]
      exact lookup_of_mem hgathered.keys he
    · rintro ⟨name, v, hv, hforeign⟩
      exact ⟨_, Gathered.mem_of_said hv, hforeign⟩
  have hnothing : ∀ name, ¬Gathered.empty.Leaves name := by
    rintro name ⟨v, hv, -⟩
    cases hv
  show b.HasForeign ↔ _
  rw [hiff, hsaid]
  constructor
  · rintro ⟨name, hleaves⟩
    rcases (addAll_leaves_iff hg name).mp hleaves with h | ⟨h, -⟩
    · obtain ⟨before, arg, after, rfl, hbrings, hafter⟩ := h
      have hmem : arg ∈ before ++ arg :: after := List.mem_append_right _ List.mem_cons_self
      have hkeeps := (Argument.effect_keeps (k := k) (hwritten arg hmem)
        (hsound arg hmem)).2 name
      obtain ⟨hname, hforeign⟩ := hkeeps.mp hbrings
      exact ⟨before, arg, after, name, rfl, hname, hforeign, hafter⟩
    · exact absurd h (hnothing name)
  · rintro ⟨before, arg, after, name, rfl, hname, hforeign, hafter⟩
    have hmem : arg ∈ before ++ arg :: after := List.mem_append_right _ List.mem_cons_self
    have hkeeps := (Argument.effect_keeps (k := k) (hwritten arg hmem) (hsound arg hmem)).2 name
    refine ⟨name, (addAll_leaves_iff hg name).mpr (.inl ?_)⟩
    exact ⟨before, arg, after, rfl, hkeeps.mpr ⟨hname, hforeign⟩, hafter⟩

end Marginalia
