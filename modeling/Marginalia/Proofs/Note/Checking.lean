import Marginalia.Proofs.Note.Gathering

/-!
# Laws of the check

What the check makes of entries is settled by what their names find:

* `chosen?_readEntries`: what counts for an attribute is what one of its two names finds;
* `check_congr`: so entries that find the same make the same annotation, in whichever order they
  were made;
* `fitted_of_lookup`: if nothing is left over, then what stands under the inner name of a field is
  what counts for it;
* `note_mem_of_fitItems`: an annotation in a list fits as it is.
-/

namespace Marginalia

/-! ## 1. Readings -/

section Check

variable {k : Kind} {es es' : List (Key × Value)}

/-- The first reading of a key is that of the entry which the key finds. -/
theorem find?_readEntries (k : Kind) (es : List (Key × Value)) (key : Key) :
    (readEntries k es).find? (·.key == key) =
      (es.lookup key).map fun v => k.reading (key, v) := by
  rw [readEntries_eq_map]
  induction es with
  | nil => rfl
  | cons e es ih =>
      obtain ⟨own, v⟩ := e
      rw [List.map_cons, List.find?_cons, List.lookup_cons]
      by_cases hkey : own = key
      · subst hkey
        have hown : ((k.reading (own, v)).key == own) = true := beq_self_eq_true own
        rw [hown, beq_self_eq_true]
        rfl
      · have hown : ((k.reading (own, v)).key == key) = false := beq_eq_false_iff_ne.mpr hkey
        rw [hown, beq_eq_false_iff_ne.mpr (Ne.symm hkey)]
        exact ih

/-- What counts for an attribute depends on what its two names find. -/
theorem chosen?_readEntries (a : Attribute) :
    a.chosen? (readEntries k es) =
      ((es.lookup (.text a.spelling)).map fun v => k.reading (.text a.spelling, v)).or
        ((es.lookup (.text a.key)).map fun v => k.reading (.text a.key, v)) := by
  unfold Attribute.chosen?
  rw [find?_readEntries, find?_readEntries]

/-! ## 2. The outcome -/

/-- The annotation that readings make, if there is nothing wrong with them. -/
def Kind.noteOf (k : Kind) (readings : List Reading) : Note where
  kind := k
  partialId := (Attribute.partialId.value readings).text?
  partials := (Attribute.partials.value readings).items.filterMap Value.text?
  fields := k.fields.map fun f => (f, (Attribute.field f).value readings)

/-- What a check that succeeds has found out. -/
theorem Kind.check_eq_ok_iff {a : Note} :
    k.check es = .ok a ↔
      (∀ b ∈ k.attributes, (b.fitted (readEntries k es)).faults = []) ∧
        k.leftovers (readEntries k es) = [] ∧ a = k.noteOf (readEntries k es) := by
  unfold Kind.check Kind.assemble
  dsimp only
  constructor
  · intro h
    split at h
    · rename_i hfaults
      obtain ⟨hattributes, hleft⟩ := List.append_eq_nil_iff.mp (List.isEmpty_iff.mp hfaults)
      exact ⟨List.flatMap_eq_nil_iff.mp hattributes, List.map_eq_nil_iff.mp hleft,
        (Except.ok.inj h).symm⟩
    · cases h
  · rintro ⟨hattributes, hleft, rfl⟩
    rw [List.flatMap_eq_nil_iff.mpr hattributes, hleft]
    rfl

/-- A check that leaves nothing over has used every entry. -/
theorem exists_chosen_of_mem (hleft : k.leftovers (readEntries k es) = []) {key : Key}
    (hkey : key ∈ es.map (·.1)) :
    ∃ b ∈ k.attributes, ∃ r, b.chosen? (readEntries k es) = some r ∧
      r.key = key := by
  obtain ⟨e, he, rfl⟩ := List.mem_map.mp hkey
  have hmem : k.reading e ∈ readEntries k es := by
    rw [readEntries_eq_map]
    exact List.mem_map_of_mem he
  have hused := List.filter_eq_nil_iff.mp hleft (k.reading e) hmem
  rw [Bool.not_eq_true, Bool.not_eq_false', List.contains_iff_mem] at hused
  obtain ⟨r, hr, hsame⟩ := List.mem_map.mp hused
  obtain ⟨b, hb, hchosen⟩ := List.mem_filterMap.mp hr
  exact ⟨b, hb, r, hchosen, hsame⟩

/-- **The check does not ask in which order entries were made**: names that find the same give the
    same annotation. -/
theorem check_congr (htext : ∀ e ∈ es', ∃ s, e.1 = .text s)
    (hsame : ∀ name, es.lookup (.text name) = es'.lookup (.text name)) {a : Note}
    (h : k.check es = .ok a) : k.check es' = .ok a := by
  have hchosen : ∀ b : Attribute, b.chosen? (readEntries k es') = b.chosen? (readEntries k es) := by
    intro b
    rw [chosen?_readEntries, chosen?_readEntries, hsame, hsame]
  have hfitted : ∀ b : Attribute, b.fitted (readEntries k es') = b.fitted (readEntries k es) := by
    intro b
    unfold Attribute.fitted
    rw [hchosen b]
  have hvalue : ∀ b : Attribute, b.value (readEntries k es') = b.value (readEntries k es) := by
    intro b
    unfold Attribute.value
    rw [hfitted b]
  obtain ⟨hfaults, hleft, rfl⟩ := Kind.check_eq_ok_iff.mp h
  refine Kind.check_eq_ok_iff.mpr ⟨fun b hb => ?_, ?_, ?_⟩
  · rw [hfitted b]
    exact hfaults b hb
  · refine List.filter_eq_nil_iff.mpr fun r hr => ?_
    rw [Bool.not_eq_true, Bool.not_eq_false', List.contains_iff_mem]
    rw [readEntries_eq_map] at hr
    obtain ⟨e, he, rfl⟩ := List.mem_map.mp hr
    obtain ⟨name, hname⟩ := htext e he
    -- the name finds something here, so it does there, and what it finds there is used
    have hthere : e.1 ∈ es.map (·.1) := by
      refine Decidable.byContradiction fun hnot => ?_
      have hnone := lookup_eq_none_of_not_mem hnot
      rw [hname, hsame] at hnone
      have hbne := List.lookup_eq_none_iff.mp hnone e he
      rw [hname, bne_self_eq_false] at hbne
      cases hbne
    obtain ⟨b, hb, r, hr, hkey⟩ := exists_chosen_of_mem hleft hthere
    refine List.mem_map.mpr ⟨r, List.mem_filterMap.mpr ⟨b, hb, ?_⟩, hkey⟩
    rw [hchosen b]
    exact hr
  · unfold Kind.noteOf
    simp only [hvalue]

end Check

/-! ## 3. Annotations in fields -/

/-- Annotations fit as they are, or not at all. -/
theorem eq_note_of_fit {item : Shape} (hitem : ∀ s, item ≠ .list s) {a : Note} {v : Value}
    (h : fit item (.note a) = .ok v) : v = .note a := by
  unfold fit at h
  split at h
  · split at h
    · exact (Except.ok.inj h).symm
    · cases h
  · exact absurd rfl (hitem _)
  · exact (Except.ok.inj h).symm
  · cases h

theorem Fitted.exists_of_both_ok {α β γ : Type} {f : α → β → γ} {x : Fitted α} {y : Fitted β}
    {c : γ} (h : Fitted.both f x y = .ok c) : ∃ a b, x = .ok a ∧ y = .ok b ∧ f a b = c := by
  cases x with
  | error e => cases y <;> cases h
  | ok a =>
      cases y with
      | error e => cases h
      | ok b => exact ⟨a, b, rfl, rfl, Except.ok.inj h⟩

theorem Fitted.eq_ok_of_under {α : Type} {step : Step} {x : Fitted α} {a : α}
    (h : x.under step = .ok a) : x = .ok a := by
  cases x with
  | error e => cases h
  | ok b => exact h

theorem note_mem_of_fitItems {item : Shape} (hitem : ∀ s, item ≠ .list s) {a : Note}
    {ws vs : List Value} {i : Nat} (h : fitItems item i ws = .ok vs) (ha : .note a ∈ ws) :
    .note a ∈ vs := by
  induction ws generalizing i vs with
  | nil => exact absurd ha List.not_mem_nil
  | cons w ws ih =>
      rw [fitItems] at h
      obtain ⟨u, us, hfirst, hmore, rfl⟩ := Fitted.exists_of_both_ok h
      rcases List.mem_cons.mp ha with rfl | hw
      · rw [eq_note_of_fit hitem (Fitted.eq_ok_of_under hfirst)]
        exact List.mem_cons_self
      · exact List.mem_cons_of_mem u (ih hmore hw)

/-- If nothing is left over, what stands under the inner name of a field is what counts for it. -/
theorem fitted_of_lookup {k : Kind} {es : List (Key × Value)}
    (hleft : k.leftovers (readEntries k es) = []) {f : Field} (hf : f ∈ k.fields) {v : Value}
    (hv : es.lookup (.text f.key) = some v) (hnull : v.isNull = false) :
    (Attribute.field f).fitted (readEntries k es) = (fit f.shape v).under (.attribute f.key) := by
  have hmem : Attribute.field f ∈ k.attributes := Kind.field_mem_attributes.mpr hf
  have hnamed : k.attribute? f.key = some (.field f) := (Kind.attribute?_of_mem hmem).2
  have hentry : Key.text f.key ∈ es.map (·.1) :=
    Decidable.byContradiction fun h => nomatch (lookup_eq_none_of_not_mem h).symm.trans hv
  -- the entry is used, and its name leaves no choice for what
  obtain ⟨b, hb, r, hchosen, hkey⟩ := exists_chosen_of_mem hleft hentry
  have hsame : b = .field f := by
    have hattribute := (Attribute.mem_of_chosen? hb hchosen).2
    rw [hkey] at hattribute
    exact Option.some.inj (hattribute.symm.trans hnamed)
  subst hsame
  have hreading : r = k.reading (.text f.key, v) := by
    rw [chosen?_readEntries] at hchosen
    rcases Option.or_eq_some_iff.mp hchosen with hspelling | ⟨-, hown⟩
    · obtain ⟨w, hw, rfl⟩ := Option.map_eq_some_iff.mp hspelling
      have hname : Key.text (Attribute.field f).spelling = .text f.key := hkey
      rw [hname] at hw ⊢
      cases hv.symm.trans hw
      rfl
    · obtain ⟨w, hw, rfl⟩ := Option.map_eq_some_iff.mp hown
      cases hv.symm.trans hw
      rfl
  have hadmitted : r.fitted = fit f.shape v := by
    rw [hreading]
    unfold Kind.reading
    dsimp only [Key.toText]
    rw [hnamed]
    unfold Attribute.admit
    dsimp only
    rw [hnull]
    rfl
  unfold Attribute.fitted
  rw [hchosen]
  dsimp only
  rw [hadmitted, hkey]
  rfl

end Marginalia
