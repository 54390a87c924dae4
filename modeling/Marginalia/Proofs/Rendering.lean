import Marginalia.Document
import Marginalia.Proofs.Pooling
import Marginalia.Proofs.Expression.Foreign

/-!
# Reports that can be rendered

A report is rendered as a document unless the place of a foreign annotation is left in something
that it shows. Such a place comes from the comments alone:

* `hasForeign_of_document?`: only such a place stands in the way of a document;
* `Note.Clean`, `Definitions.Clean`: no such place is left. What declarations fill in, filing,
  pooling (`pool_clean`), expanding (`expandTo_clean`), validating and reading shared lists keep it
  so (`ofScans_clean`);
* so, where there is no document, an annotation of a comment has a place left in it, and in its
  text a foreign annotation stands behind a label (`Tree.LabelsForeign`).

Main statement: `foreign_left_only_where_labelled`.
-/

namespace Marginalia

/-! ## 1. Documents -/

mutual

/-- **Only the place of a foreign annotation stands in the way of a document.** -/
theorem hasForeign_of_document? : ∀ v : Value, v.document? = none → v.HasForeign
  | .null, h | .bool _, h | .int _, h | .real _, h | .text _, h | .shared _ _, h => by
      rw [Value.document?] at h
      cases h
  | .foreign, _ => .foreign
  | .list vs, h => by
      rw [Value.document?, Option.map_eq_none_iff] at h
      exact Value.hasForeign_list.mpr (hasForeign_of_itemDocuments? vs h)
  | .pair name v, h => by
      rw [Value.document?, Option.map_eq_none_iff] at h
      exact .pair (hasForeign_of_document? v h)
  | .map es, h => by
      rw [Value.document?, Option.map_eq_none_iff] at h
      exact Value.hasForeign_map.mpr (hasForeign_of_memberDocuments? es h)
  | .note a, h => by
      rw [Value.document?] at h
      exact Value.hasForeign_note.mpr (hasForeign_of_noteDocument? a h)

theorem hasForeign_of_noteDocument? : ∀ a : Note, a.document? = none → a.HasForeign
  | ⟨kind, id, refs, fields⟩, h => by
      rw [Note.document?, Option.map_eq_none_iff] at h
      exact hasForeign_of_slotDocuments? fields h

theorem hasForeign_of_itemDocuments? :
    ∀ vs : List Value, itemDocuments? vs = none → ∃ v ∈ vs, v.HasForeign
  | [], h => by
      rw [itemDocuments?] at h
      cases h
  | v :: vs, h => by
      rw [List.exists_mem_cons_iff]
      cases hv : v.document? with
      | none => exact .inl (hasForeign_of_document? v hv)
      | some d =>
          cases hvs : itemDocuments? vs with
          | none => exact .inr (hasForeign_of_itemDocuments? vs hvs)
          | some ds =>
              rw [itemDocuments?, hv, hvs] at h
              cases h

theorem hasForeign_of_memberDocuments? :
    ∀ es : List (Key × Value), memberDocuments? es = none → ∃ e ∈ es, e.2.HasForeign
  | [], h => by
      rw [memberDocuments?] at h
      cases h
  | (k, v) :: es, h => by
      rw [List.exists_mem_cons_iff]
      cases hv : v.document? with
      | none => exact .inl (hasForeign_of_document? v hv)
      | some d =>
          cases hes : memberDocuments? es with
          | none => exact .inr (hasForeign_of_memberDocuments? es hes)
          | some ds =>
              rw [memberDocuments?, hv, hes] at h
              cases h

theorem hasForeign_of_slotDocuments? :
    ∀ es : List (Field × Value), slotDocuments? es = none → ∃ e ∈ es, e.2.HasForeign
  | [], h => by
      rw [slotDocuments?] at h
      cases h
  | (f, v) :: es, h => by
      rw [List.exists_mem_cons_iff]
      cases hv : v.document? with
      | none => exact .inl (hasForeign_of_document? v hv)
      | some d =>
          cases hes : slotDocuments? es with
          | none => exact .inr (hasForeign_of_slotDocuments? es hes)
          | some ds =>
              rw [slotDocuments?, hv, hes] at h
              split at h <;> cases h

end

/-! ## 2. Nothing foreign is left -/

/-- No place of a foreign annotation is left in a value. -/
def Value.Clean (v : Value) : Prop := ¬v.HasForeign

/-- No place of a foreign annotation is left in an annotation. -/
def Note.Clean (a : Note) : Prop := ∀ e ∈ a.fields, e.2.Clean

/-- No place of a foreign annotation is left in definitions. -/
def Definitions.Clean (defs : Definitions) : Prop := ∀ e ∈ defs, e.2.Clean

theorem Note.clean_iff {a : Note} : a.Clean ↔ ¬a.HasForeign := by
  simp [Note.Clean, Value.Clean, Note.HasForeign]

theorem Value.clean_list {vs : List Value} : (Value.list vs).Clean ↔ ∀ v ∈ vs, v.Clean := by
  simp [Value.Clean]

theorem Value.clean_note {a : Note} : (Value.note a).Clean ↔ a.Clean := by
  rw [Note.clean_iff]
  exact not_congr Value.hasForeign_note

theorem Value.Clean.items {v : Value} (h : v.Clean) : ∀ w ∈ v.items, w.Clean := by
  cases v with
  | list vs => exact Value.clean_list.mp h
  | _ => exact nofun

theorem noteDocuments?_of_clean {notes : List Note} (h : ∀ a ∈ notes, a.Clean) :
    ∃ ds, noteDocuments? notes = some ds := by
  induction notes with
  | nil => exact ⟨[], rfl⟩
  | cons a notes ih =>
      obtain ⟨ha, hmore⟩ := List.forall_mem_cons.mp h
      obtain ⟨ds, hds⟩ := ih hmore
      cases hd : a.document? with
      | none => exact absurd (hasForeign_of_noteDocument? a hd) (Note.clean_iff.mp ha)
      | some d => exact ⟨d :: ds, by rw [noteDocuments?, hd, hds]⟩

theorem definitionDocuments?_of_clean {defs : Definitions} (h : defs.Clean) :
    ∃ ds, definitionDocuments? defs = some ds := by
  induction defs with
  | nil => exact ⟨[], rfl⟩
  | cons e defs ih =>
      obtain ⟨ha, hmore⟩ := List.forall_mem_cons.mp h
      obtain ⟨ds, hds⟩ := ih hmore
      obtain ⟨id, a⟩ := e
      cases hd : a.document? with
      | none => exact absurd (hasForeign_of_noteDocument? a hd) (Note.clean_iff.mp ha)
      | some d => exact ⟨(id, d) :: ds, by rw [definitionDocuments?, hd, hds]⟩

/-! ## 3. Fields -/

namespace Note.Clean

variable {a : Note} {f : Field} {v : Value}

theorem get (h : a.Clean) (f : Field) : (a.get f).Clean := by
  unfold Note.get
  cases hf : a.fields.lookup f with
  | none => exact nofun
  | some v => exact h (f, v) (mem_of_lookup hf)

theorem set (h : a.Clean) (hv : v.Clean) : (a.set f v).Clean := by
  intro e he
  obtain ⟨d, hd, rfl⟩ := List.mem_map.mp he
  split
  · exact hv
  · exact h d hd

theorem fill (h : a.Clean) (hv : v.Clean) : (a.fill f v).Clean := by
  unfold Note.fill
  split
  · exact h.set hv
  · exact h

theorem extend (h : a.Clean) (f : Field) {vs : List Value} (hvs : ∀ v ∈ vs, v.Clean) :
    (a.extend f vs).Clean :=
  h.set (Value.clean_list.mpr (List.forall_mem_append.mpr ⟨(h.get f).items, hvs⟩))

theorem insert {b : Note} (h : a.Clean) (hb : b.Clean) : (a.insert f b).Clean := by
  unfold Note.insert
  split
  · exact h.extend f (List.forall_mem_singleton.mpr (Value.clean_note.mpr hb))
  · exact h.set (Value.clean_note.mpr hb)

/-- What a declaration fills in is text. -/
theorem fillFrom (h : a.Clean) (target : Target) (comment : String) (path : Option String) :
    (a.fillFrom target comment path).Clean := by
  have htext : ∀ s, (Value.text s).Clean := fun s => Value.not_hasForeign_text s
  have hoption : ∀ s, (Value.ofText? s).Clean := fun s => Value.not_hasForeign_ofText? s
  have hnicknames : ∀ (b : Note) (method : String), b.Clean →
      (b.set .operations (.list ((b.get .operations).items.map (fillNickname method)))).Clean := by
    intro b method hb
    refine hb.set (Value.clean_list.mpr fun w hw => ?_)
    obtain ⟨v, hv, rfl⟩ := List.mem_map.mp hw
    have hv := (hb.get .operations).items v hv
    cases v with
    | note o => exact Value.clean_note.mpr ((Value.clean_note.mp hv).fill (htext method))
    | _ => exact hv
  cases target with
  | unattached => exact h
  | type fullName parent =>
      show (a.fillFromType fullName parent).Clean
      unfold Note.fillFromType
      split
      · exact h.fill (htext _)
      · exact ((h.set (htext _)).fill (htext _)).set (hoption parent)
      · exact h
  | method name =>
      show (a.fillFromMethod name path).Clean
      unfold Note.fillFromMethod
      split
      · refine hnicknames _ name ?_
        split
        · split
          · exact h
          · exact h.fill (htext _)
        · exact h
      · exact h
  | property name =>
      show (a.fillFromProperty name comment).Clean
      unfold Note.fillFromProperty
      split
      · exact (h.fill (htext name)).fill (hoption _)
      · exact h

end Note.Clean

/-! ## 4. Filing and pooling -/

theorem declared_clean (before : List Note) (calls : List Submission)
    (h : ∀ c ∈ calls, ∀ a ∈ c.read, a.Clean) : ∀ a ∈ declared before calls, a.Clean := by
  induction calls generalizing before with
  | nil => exact nofun
  | cons c calls ih =>
      obtain ⟨hc, hmore⟩ := List.forall_mem_cons.mp h
      refine List.forall_mem_append.mpr ⟨fun a ha => ?_, ih _ hmore⟩
      obtain ⟨b, hb, rfl⟩ := List.mem_map.mp ha
      exact (hc b hb).fillFrom _ _ _

theorem entries_clean (opener member : Kind) (f : Field) {notes : List Note}
    (h : ∀ a ∈ notes, a.Clean) : ∀ a ∈ entries opener member f notes, a.Clean := by
  induction notes with
  | nil => exact nofun
  | cons a notes ih =>
      obtain ⟨ha, hmore⟩ := List.forall_mem_cons.mp h
      unfold entries
      split
      · refine List.forall_mem_cons.mpr ⟨ha.extend f fun v hv => ?_, ih hmore⟩
        obtain ⟨b, hb, rfl⟩ := List.mem_map.mp hv
        have hb := (List.takeWhile_sublist _).subset (List.mem_filter.mp hb).1
        exact Value.clean_note.mpr (hmore b hb)
      · exact ih hmore

/-- No comment of a source is read as an annotation with a place left in it. -/
def ReadsClean (source : String × List UInt8) : Prop :=
  ∀ c ∈ submissionsOf source, ∀ a ∈ c.read, a.Clean

theorem declaredIn_clean {source : String × List UInt8} (h : ReadsClean source) :
    ∀ a ∈ declaredIn source, a.Clean := declared_clean [] _ h

theorem pool_clean {files : List (String × List UInt8)} (h : ∀ source ∈ files, ReadsClean source) :
    Definitions.Clean (pool [] (scansOf files)).1 := by
  have hdistinct : Definitions.Distinct (pool [] (scansOf files)).1 :=
    (pool_written (scansOf files) (scansOf_written files) [] nofun List.nodup_nil).2
  intro e he
  have hfind := Definitions.find?_of_mem hdistinct he
  rw [show scansOf files = files.map scanOf from rfl, pool_find?] at hfind
  have hlast := hfind.symm.trans Option.or_none
  obtain ⟨source, hsource, ha⟩ :=
    List.mem_flatMap.mp (List.mem_reverse.mp (List.mem_of_find?_eq_some hlast.symm))
  exact declaredIn_clean (h source hsource) _ ha

/-! ## 5. Expansion -/

theorem Definitions.Clean.extend {defs : Definitions} (h : defs.Clean) (id : String) (f : Field)
    {vs : List Value} (hvs : ∀ v ∈ vs, v.Clean) : (defs.extend id f vs).Clean := by
  intro e he
  obtain ⟨d, hd, rfl⟩ := List.mem_map.mp he
  split
  · exact (h d hd).extend f hvs
  · exact h d hd

theorem Definitions.Clean.find? {defs : Definitions} (h : defs.Clean) {id : String} {d : Note}
    (hd : defs.find? id = some d) : d.Clean := h _ (Definitions.mem_of_find? hd)

theorem mergeField_clean {id : String} {d a : Note} {defs : Definitions} {f : Field}
    {x : Note × Definitions} (hd : d.Clean) (ha : a.Clean) (hdefs : defs.Clean)
    (h : mergeField id d a defs f = .ok x) : x.1.Clean ∧ x.2.Clean := by
  have hget := hd.get f
  unfold mergeField at h
  split at h
  · rename_i xs ys hx hy
    cases h
    have hxs := ha.get f
    rw [hx, Value.clean_list] at hxs
    rw [hy, Value.clean_list] at hget
    exact ⟨ha.set (Value.clean_list.mpr (List.forall_mem_append.mpr ⟨hxs, hget⟩)), hdefs⟩
  · rename_i origin g ys hx hy
    split at h
    · cases h
    · cases h
      rw [hy, Value.clean_list] at hget
      exact ⟨ha, hdefs.extend origin g hget⟩
  · cases h
    exact ⟨ha.set (Value.not_hasForeign_shared id f), hdefs⟩
  · cases h
    exact ⟨ha.set hget, hdefs⟩
  · cases h
    exact ⟨ha, hdefs⟩

theorem mergeFields_clean {id : String} {d : Note} (hd : d.Clean) (fields : List Field) {a : Note}
    {defs : Definitions} {x : Note × Definitions} (ha : a.Clean) (hdefs : defs.Clean)
    (h : mergeFields id d a defs fields = .ok x) : x.1.Clean ∧ x.2.Clean := by
  induction fields generalizing a defs with
  | nil =>
      cases h
      exact ⟨ha, hdefs⟩
  | cons f fields ih =>
      unfold mergeFields at h
      split at h
      · cases h
      · rename_i b now hb
        obtain ⟨hb, hnow⟩ := mergeField_clean hd ha hdefs hb
        exact ih hb hnow h

/-- What an expander does: from what is clean it makes what is clean. -/
def Expander.Cleanly (inner : Expander) : Prop :=
  ∀ {chain defs a x}, inner chain defs a = .ok x → a.Clean → defs.Clean →
    x.result.Clean ∧ x.definitions.Clean

section Expanding

variable {inner : Expander} {location : String} {chain : List String}

theorem followId_clean (hinner : inner.Cleanly) {a : Note} {defs : Definitions} {id : String}
    {x : Expanded Note} (h : followId inner location chain a defs id = .ok x) (ha : a.Clean)
    (hdefs : defs.Clean) : x.result.Clean ∧ x.definitions.Clean := by
  cases followId_followed h with
  | unknown hnone => exact ⟨ha, hdefs⟩
  | circular hd hc => exact ⟨ha, hdefs⟩
  | merged hd hc hk hm => exact mergeFields_clean (hdefs.find? hd) _ ha hdefs hm
  | inserted hd hc hk hf hg hy =>
      have hcopy := hdefs.find? hd
      obtain ⟨hy, hnow⟩ := hinner hy hcopy hdefs
      exact ⟨ha.insert hy, hnow⟩
  | refused hd hc hk hf => exact ⟨ha, hdefs⟩

theorem followIds_clean (hinner : inner.Cleanly) (ids : List String) {a : Note}
    {defs : Definitions} {x : Expanded Note}
    (h : followIds inner location chain a defs ids = .ok x) (ha : a.Clean) (hdefs : defs.Clean) :
    x.result.Clean ∧ x.definitions.Clean := by
  induction ids generalizing a defs x with
  | nil =>
      cases h
      exact ⟨ha, hdefs⟩
  | cons id ids ih =>
      unfold followIds at h
      split at h
      · cases h
      · rename_i y hy
        split at h
        · cases h
        · rename_i z hz
          cases h
          obtain ⟨hy, hnow⟩ := followId_clean hinner hy ha hdefs
          have hlast := ih hz hy hnow
          exact hlast

theorem expandItems_clean (hinner : inner.Cleanly) (vs : List Value) {defs : Definitions}
    {x : Expanded (List Value)} (h : expandItems inner chain defs vs = .ok x)
    (hvs : ∀ v ∈ vs, v.Clean) (hdefs : defs.Clean) :
    (∀ v ∈ x.result, v.Clean) ∧ x.definitions.Clean := by
  induction vs generalizing defs x with
  | nil =>
      cases h
      exact ⟨nofun, hdefs⟩
  | cons v vs ih =>
      obtain ⟨hv, hmore⟩ := List.forall_mem_cons.mp hvs
      unfold expandItems at h
      split at h
      · split at h
        · cases h
        · rename_i y hy
          split at h
          · cases h
          · rename_i z hz
            cases h
            obtain ⟨hy, hnow⟩ := hinner hy (Value.clean_note.mp hv) hdefs
            obtain ⟨hz, hlast⟩ := ih hz hmore hnow
            exact ⟨List.forall_mem_cons.mpr ⟨Value.clean_note.mpr hy, hz⟩, hlast⟩
      · cases h

theorem expandField_clean (hinner : inner.Cleanly) {a : Note} {defs : Definitions} {f : Field}
    {x : Expanded Note} (h : expandField inner chain a defs f = .ok x) (ha : a.Clean)
    (hdefs : defs.Clean) : x.result.Clean ∧ x.definitions.Clean := by
  have hget := ha.get f
  unfold expandField at h
  split at h
  · rename_i vs hvs
    rw [hvs, Value.clean_list] at hget
    split at h
    · cases h
    · rename_i y hy
      cases h
      obtain ⟨hy, hnow⟩ := expandItems_clean hinner vs hy hget hdefs
      exact ⟨ha.set (Value.clean_list.mpr hy), hnow⟩
  · rename_i child hchild
    rw [hchild, Value.clean_note] at hget
    split at h
    · cases h
    · rename_i y hy
      cases h
      obtain ⟨hy, hnow⟩ := hinner hy hget hdefs
      exact ⟨ha.set (Value.clean_note.mpr hy), hnow⟩
  · cases h
    exact ⟨ha, hdefs⟩

theorem expandFields_clean (hinner : inner.Cleanly) (fields : List Field) {a : Note}
    {defs : Definitions} {x : Expanded Note}
    (h : expandFields inner chain a defs fields = .ok x) (ha : a.Clean) (hdefs : defs.Clean) :
    x.result.Clean ∧ x.definitions.Clean := by
  induction fields generalizing a defs x with
  | nil =>
      cases h
      exact ⟨ha, hdefs⟩
  | cons f fields ih =>
      unfold expandFields at h
      split at h
      · cases h
      · rename_i y hy
        split at h
        · cases h
        · rename_i z hz
          cases h
          obtain ⟨hy, hnow⟩ := expandField_clean hinner hy ha hdefs
          have hlast := ih hz hy hnow
          exact hlast

end Expanding

/-- **Expansion leaves no place that was not there.** -/
theorem expandTo_clean (location : String) (depth : Nat) : (expandTo location depth).Cleanly := by
  induction depth with
  | zero =>
      intro chain defs a x h
      cases h
  | succ depth ih =>
      intro chain defs a x h ha hdefs
      obtain ⟨y, z, hy, hz, rfl⟩ := expandTo_parts h
      obtain ⟨hy, hnow⟩ := followIds_clean ih _ hy ha hdefs
      have hlast := expandFields_clean ih _ hz hy hnow
      exact hlast

theorem expandAll_clean (location : String) (notes : List Note) {defs : Definitions}
    {x : Expanded (List Note)} (h : expandAll location defs notes = .ok x)
    (hnotes : ∀ a ∈ notes, a.Clean) (hdefs : defs.Clean) :
    (∀ a ∈ x.result, a.Clean) ∧ x.definitions.Clean := by
  induction notes generalizing defs x with
  | nil =>
      cases h
      exact ⟨nofun, hdefs⟩
  | cons a notes ih =>
      obtain ⟨ha, hmore⟩ := List.forall_mem_cons.mp hnotes
      unfold expandAll at h
      split at h
      · cases h
      · rename_i y hy
        split at h
        · cases h
        · rename_i z hz
          cases h
          obtain ⟨hy, hnow⟩ := expandTo_clean location _ hy ha hdefs
          obtain ⟨hz, hlast⟩ := ih hz hmore hnow
          exact ⟨List.forall_mem_cons.mpr ⟨hy, hz⟩, hlast⟩

/-! ## 6. Validation and shared lists -/

mutual

theorem validPart_clean : ∀ a : Note, a.Clean → a.validPart.Clean
  | ⟨kind, id, refs, fields⟩, h => by
      rw [Note.validPart]
      exact validSlots_clean kind fields h

theorem validSlots_clean (owner : Kind) : ∀ es : List (Field × Value), (∀ e ∈ es, e.2.Clean) →
    ∀ e ∈ validSlots owner es, e.2.Clean
  | [], _ => by
      rw [validSlots]
      exact nofun
  | (f, v) :: es, h => by
      obtain ⟨hv, hmore⟩ := List.forall_mem_cons.mp h
      have hes := validSlots_clean owner es hmore
      cases v with
      | list vs =>
          rw [validSlots]
          refine List.forall_mem_cons.mpr ⟨Value.clean_list.mpr ?_, hes⟩
          have hvs := Value.clean_list.mp hv
          split
          · exact validItems_clean vs hvs
          · exact hvs
      | _ =>
          rw [validSlots]
          · exact List.forall_mem_cons.mpr ⟨hv, hes⟩
          · exact nofun

theorem validItems_clean : ∀ vs : List Value, (∀ v ∈ vs, v.Clean) → ∀ v ∈ validItems vs, v.Clean
  | [], _ => by
      rw [validItems]
      exact nofun
  | v :: vs, h => by
      obtain ⟨hv, hmore⟩ := List.forall_mem_cons.mp h
      have hvs := validItems_clean vs hmore
      cases v with
      | note a =>
          rw [validItems]
          split
          · have ha := validPart_clean a (Value.clean_note.mp hv)
            exact List.forall_mem_cons.mpr ⟨Value.clean_note.mpr ha, hvs⟩
          · exact hvs
      | _ =>
          rw [validItems]
          · exact List.forall_mem_cons.mpr ⟨hv, hvs⟩
          · exact nofun

end

theorem pruneRoots_clean (location : String) {roots : List Note} (h : ∀ a ∈ roots, a.Clean) :
    ∀ a ∈ (pruneRoots location roots).1, a.Clean := by
  rw [pruneRoots_fst]
  intro a ha
  obtain ⟨b, hb, rfl⟩ := List.mem_map.mp ha
  exact validPart_clean b (h b (List.mem_filter.mp hb).1)

section Resolving

variable {look : String → Field → Value}

mutual

theorem resolve_clean (hlook : ∀ origin f, (look origin f).Clean) :
    ∀ v : Value, v.Clean → (v.resolve look).Clean
  | .null, h | .bool _, h | .int _, h | .real _, h | .text _, h | .foreign, h => by
      rw [Value.resolve] <;> first | exact h | exact nofun
  | .shared origin f, _ => by
      rw [Value.resolve]
      exact hlook origin f
  | .list vs, h => by
      rw [Value.resolve]
      exact Value.clean_list.mpr (resolveItems_clean hlook vs (Value.clean_list.mp h))
  | .pair name v, h => by
      rw [Value.resolve]
      exact mt Value.hasForeign_pair.mp
        (resolve_clean hlook v fun hv => h (Value.hasForeign_pair.mpr hv))
  | .map es, h => by
      have hentries := resolveEntries_clean hlook es fun e he hv => h (.map he hv)
      rw [Value.resolve]
      rintro hforeign
      obtain ⟨e, he, hv⟩ := Value.hasForeign_map.mp hforeign
      exact hentries e he hv
  | .note a, h => by
      rw [Value.resolve]
      exact Value.clean_note.mpr (resolveNote_clean hlook a (Value.clean_note.mp h))

theorem resolveNote_clean (hlook : ∀ origin f, (look origin f).Clean) :
    ∀ a : Note, a.Clean → (a.resolve look).Clean
  | ⟨kind, id, refs, fields⟩, h => by
      rw [Note.resolve]
      exact resolveSlots_clean hlook fields h

theorem resolveItems_clean (hlook : ∀ origin f, (look origin f).Clean) :
    ∀ vs : List Value, (∀ v ∈ vs, v.Clean) → ∀ v ∈ resolveItems look vs, v.Clean
  | [], _ => by
      rw [resolveItems]
      exact nofun
  | v :: vs, h => by
      obtain ⟨hv, hmore⟩ := List.forall_mem_cons.mp h
      rw [resolveItems]
      exact List.forall_mem_cons.mpr
        ⟨resolve_clean hlook v hv, resolveItems_clean hlook vs hmore⟩

theorem resolveEntries_clean (hlook : ∀ origin f, (look origin f).Clean) :
    ∀ es : List (Key × Value), (∀ e ∈ es, e.2.Clean) → ∀ e ∈ resolveEntries look es, e.2.Clean
  | [], _ => by
      rw [resolveEntries]
      exact nofun
  | (k, v) :: es, h => by
      obtain ⟨hv, hmore⟩ := List.forall_mem_cons.mp h
      rw [resolveEntries]
      exact List.forall_mem_cons.mpr
        ⟨resolve_clean hlook v hv, resolveEntries_clean hlook es hmore⟩

theorem resolveSlots_clean (hlook : ∀ origin f, (look origin f).Clean) :
    ∀ es : List (Field × Value), (∀ e ∈ es, e.2.Clean) → ∀ e ∈ resolveSlots look es, e.2.Clean
  | [], _ => by
      rw [resolveSlots]
      exact nofun
  | (f, v) :: es, h => by
      obtain ⟨hv, hmore⟩ := List.forall_mem_cons.mp h
      rw [resolveSlots]
      exact List.forall_mem_cons.mpr
        ⟨resolve_clean hlook v hv, resolveSlots_clean hlook es hmore⟩

end

end Resolving

theorem settled_clean {defs : Definitions} (hdefs : defs.Clean) {a : Note} (ha : a.Clean) :
    (a.settled defs).Clean := by
  refine resolveNote_clean (fun origin f => ?_) a ha
  unfold Definitions.sharedList
  split
  · rename_i d hd
    exact (hdefs.find? hd).get f
  · exact Value.clean_list.mpr nofun

/-! ## 7. Reports -/

theorem finish_clean {source : String × List UInt8} (hread : ReadsClean source)
    {defs : Definitions} (hdefs : defs.Clean) {x : Expanded Section}
    (h : (scanOf source).finish defs = .ok x) :
    (∀ a ∈ x.result.resources, a.Clean) ∧ (∀ a ∈ x.result.models, a.Clean) ∧
      x.definitions.Clean := by
  obtain ⟨hholds, -⟩ := scanOf_holds source
  have hdeclared := declaredIn_clean hread
  unfold FileScan.finish at h
  rw [hholds.resources, hholds.models] at h
  split at h
  · cases h
  · rename_i r hr
    split at h
    · cases h
    · rename_i m hm
      cases h
      obtain ⟨hr, hnow⟩ := expandAll_clean _ _ hr (entries_clean _ _ _ hdeclared) hdefs
      obtain ⟨hm, hlast⟩ := expandAll_clean _ _ hm (entries_clean _ _ _ hdeclared) hnow
      exact ⟨pruneRoots_clean _ hr, pruneRoots_clean _ hm, hlast⟩

theorem finishAll_clean (files : List (String × List UInt8))
    (hread : ∀ source ∈ files, ReadsClean source) {defs : Definitions} (hdefs : defs.Clean)
    {x : Expanded Section} (h : finishAll defs (files.map scanOf) = .ok x) :
    (∀ a ∈ x.result.resources, a.Clean) ∧ (∀ a ∈ x.result.models, a.Clean) ∧
      x.definitions.Clean := by
  induction files generalizing defs x with
  | nil =>
      cases h
      exact ⟨nofun, nofun, hdefs⟩
  | cons source files ih =>
      obtain ⟨hsource, hmore⟩ := List.forall_mem_cons.mp hread
      rw [List.map_cons] at h
      unfold finishAll at h
      split at h
      · cases h
      · rename_i y hy
        split at h
        · cases h
        · rename_i z hz
          cases h
          obtain ⟨hyr, hym, hnow⟩ := finish_clean hsource hdefs hy
          obtain ⟨hzr, hzm, hlast⟩ := ih hmore hnow hz
          exact ⟨List.forall_mem_append.mpr ⟨hyr, hzr⟩, List.forall_mem_append.mpr ⟨hym, hzm⟩,
            hlast⟩

/-- A report on sources that read clean has a document. -/
theorem exists_document {files : List (String × List UInt8)}
    (hread : ∀ source ∈ files, ReadsClean source) {r : Report}
    (h : Report.ofScans (scansOf files) = .ok r) : ∃ d, r.document? = some d := by
  unfold Report.ofScans at h
  dsimp only at h
  obtain ⟨x, hx, rfl⟩ := exists_of_map_ok h
  obtain ⟨hr, hm, hdefs⟩ := finishAll_clean files hread (pool_clean hread) hx
  have hsettled : ∀ notes : List Note, (∀ a ∈ notes, a.Clean) →
      ∀ a ∈ notes.map (·.settled x.definitions), a.Clean := by
    intro notes hnotes a ha
    obtain ⟨b, hb, rfl⟩ := List.mem_map.mp ha
    exact settled_clean hdefs (hnotes b hb)
  obtain ⟨resources, hresources⟩ := noteDocuments?_of_clean (hsettled _ hr)
  obtain ⟨models, hmodels⟩ := noteDocuments?_of_clean (hsettled _ hm)
  obtain ⟨definitions, hdefinitions⟩ := definitionDocuments?_of_clean hdefs
  unfold Report.document?
  rw [hresources, hmodels, hdefinitions]
  exact ⟨_, rfl⟩

/-- **Where the place of a foreign annotation is left.**

    * Every annotation of a comment is the value of a tree that is read from the text of the
      comment, and a place is left in it exactly if the tree leaves one: a foreign annotation stands
      in it with a label, and what its label names is not taken by something later. So foreign
      annotations without a label leave no trace, at any depth.
    * A report on any sources is rendered as a document, unless a place is left in an annotation
      that is read from one of their comments. -/
theorem foreign_left_only_where_labelled (comment : String) (aliases : Aliases)
    (files : List (String × List UInt8)) :
    (∀ notes, DocComment.parse comment aliases = .ok notes → ∀ a ∈ notes,
      ∃ text tree, text <:+: DocComment.strip comment.toList ∧ Expression.parse text = .ok tree ∧
        tree.eval aliases = .ok (.note a) ∧ (a.HasForeign ↔ tree.LeavesForeign aliases) ∧
        (a.HasForeign → tree.LabelsForeign aliases)) ∧
    ∀ r, Report.ofScans (scansOf files) = .ok r →
      (∃ d, r.document? = some d) ∨
        ∃ source ∈ files, ∃ c ∈ submissionsOf source, ∃ a ∈ c.read, a.HasForeign := by
  refine ⟨fun notes h a ha => ?_, fun r h => ?_⟩
  · obtain ⟨text, tree, htext, hparse, heval⟩ :=
      DocComment.exists_tree_of_annotationsFrom h a ha
    have hiff := (Expression.eval_keeps aliases tree heval).2
    rw [Value.hasForeign_note] at hiff
    refine ⟨text, tree, htext, hparse, heval, hiff, fun hforeign => ?_⟩
    exact ((hiff.mp hforeign).labels heval).resolve_left nofun
  · by_cases hread : ∀ source ∈ files, ReadsClean source
    · exact .inl (exists_document hread h)
    · unfold ReadsClean at hread
      simp only [Note.clean_iff] at hread
      push Not at hread
      exact .inr hread

/-- A foreign annotation as the default value of a parameter. -/
def foreignDefault : String :=
  "/** @SWG\\Parameter(partial=\"p\", defaultValue=@Foo()) */"

/-- A file with nothing but that. -/
def foreignDefaultFile : List (String × List UInt8) :=
  [("a.php", ("<?php " ++ foreignDefault).toUTF8.toList)]

theorem foreign_left_in_default :
    (∃ notes, DocComment.parse foreignDefault Imports.builtin.entries = .ok notes ∧
      ∃ a ∈ notes, a.HasForeign ∧ ∃ text tree,
        text <:+: DocComment.strip foreignDefault.toList ∧ Expression.parse text = .ok tree ∧
          tree.LabelsForeign Imports.builtin.entries) ∧
    ∃ r, Report.ofScans (scansOf foreignDefaultFile) = .ok r ∧ r.document? = none ∧
      ∃ source ∈ foreignDefaultFile, ∃ c ∈ submissionsOf source, ∃ a ∈ c.read, a.HasForeign := by
  have hparsed : ((DocComment.parse foreignDefault Imports.builtin.entries).toOption.map
      fun notes => notes.map fun a => a.document?.isNone) = some [true] := by
    decide +kernel
  have hreport : ((Report.ofScans (scansOf foreignDefaultFile)).toOption.map fun r =>
      r.document?.isNone) = some true := by
    decide +kernel
  obtain ⟨hcomment, hfiles⟩ :=
    foreign_left_only_where_labelled foreignDefault Imports.builtin.entries foreignDefaultFile
  refine ⟨?_, ?_⟩
  · cases hnotes : DocComment.parse foreignDefault Imports.builtin.entries with
    | error fault =>
        rw [hnotes] at hparsed
        cases hparsed
    | ok notes =>
        rw [hnotes] at hparsed
        obtain ⟨a, rfl, hnone⟩ := List.map_eq_singleton_iff.mp (Option.some.inj hparsed)
        have hforeign := hasForeign_of_noteDocument? a (Option.isNone_iff_eq_none.mp hnone)
        obtain ⟨text, tree, htext, htree, -, -, hlabels⟩ :=
          hcomment _ hnotes a List.mem_cons_self
        exact ⟨[a], rfl, a, List.mem_cons_self, hforeign, text, tree, htext, htree,
          hlabels hforeign⟩
  · cases hr : Report.ofScans (scansOf foreignDefaultFile) with
    | error e =>
        rw [hr] at hreport
        cases hreport
    | ok r =>
        rw [hr] at hreport
        have hnone : r.document? = none := Option.isNone_iff_eq_none.mp (Option.some.inj hreport)
        refine ⟨r, rfl, hnone, (hfiles r hr).resolve_left ?_⟩
        rw [hnone]
        exact nofun

end Marginalia
