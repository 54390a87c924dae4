import Marginalia.Proofs.Expansion.FirstValue

/-!
# What stands below when the references have been followed

A run first follows the references of an annotation and then expands what stands in its nest fields.
What is there by then depends on the definitions of the beginning alone, but for copies, which are
settled already:

* `Referenced`: each nest field is composed of what it was and of what the ids give to it, and items
  whose place was taken are a settled copy;
* `followQueue_referenced`: this is so whenever references have been followed;
* `Referenced.below`: whatever holds throughout the annotation and the definitions, and of settled
  annotations, holds of what stands below.
-/

namespace Marginalia

/-! ## 1. Items whose place is taken -/

section Items

variable {base : Definitions} {location : String} {depth : Nat} {chain : List String} {k : Kind}
  {done : List String} {a : Note} {defs : Definitions}

/-- The items are a copy that has been expanded. -/
def Note.ItemsCopied (a : Note) : Prop := ∃ c, a.get .items = .note c ∧ c.Throughout Note.Settled

/-- Items that are a settled copy remain one, and a reference that takes their place makes them
    one. -/
theorem Followed.itemsCopied {id : String} {x : Expanded Note}
    (way : UnderWay (alikeCustody False base) k done a)
    (holds : (alikeCustody False base).Holds defs)
    (h : Followed (expandTo location depth) location chain a defs id x)
    (hcopied : a.ItemsCopied ∨ base.ReplacesItems chain k id) : x.result.ItemsCopied := by
  -- an id that takes the place of the items is known, and is neither barred nor merged
  have hreplaces : base.ReplacesItems chain k id → ∀ {e}, defs.find? id = some e →
      e.kind = .items ∧ id ∉ chain ∧ e.kind ≠ k ∧ k.nestField? e.kind = some .items := by
    rintro ⟨hkind, hc, hnest⟩ e he
    rw [← holds.1.kind_iff id, he, Option.map_some] at hkind
    have hitems := Option.some.inj hkind
    obtain ⟨hfield, hne⟩ := Kind.nestField?_items hnest
    rw [hitems]
    exact ⟨rfl, hc, hne.symm, hfield⟩
  cases h with
  | unknown hn =>
      refine hcopied.resolve_right ?_
      rintro ⟨hkind, -⟩
      rw [holds.1.find?_eq_none hn] at hkind
      cases hkind
  | circular he hc => exact hcopied.resolve_right fun hr => (hreplaces hr he).2.1 hc
  | @merged e m he hc hek hm =>
      obtain ⟨c, hget, hc⟩ := hcopied.resolve_right fun hr =>
        (hreplaces hr he).2.2.1 (hek.trans way.kind_eq)
      have hgains := (mergeFields_retains _ hm).gains way.nested.slotted .items
        fun _ => not_false
      rw [hget] at hgains
      exact ⟨c, hgains, hc⟩
  | @inserted e g y he hc hek hg hgroup hy =>
      have hready := Custody.ready_copy ((alikeCustody False base).known holds he)
      have hsettled := (expandTo_settles holds hready hy).2.1
      rw [way.kind_eq] at hg
      obtain ⟨hmem, hfields⟩ := Kind.nestField?_mem hg
      by_cases hitems : g = .items
      · subst hitems
        refine ⟨y.result, ?_, hsettled⟩
        have hkey : .items ∈ a.keys := way.nested.slotted.mem (way.kind_eq ▸ hfields)
        exact Note.get_set_self _ hkey
      · obtain ⟨c, hget, hc⟩ := hcopied.resolve_right fun hr => hitems
          (Option.some.inj (hg.symm.trans (hreplaces hr he).2.2.2))
        refine ⟨c, ?_, hc⟩
        rw [← hget]
        show (a.insert g y.result).get .items = a.get .items
        unfold Note.insert
        split
        · exact Note.get_set_of_ne a _ fun h => hitems h.symm
        · exact Note.get_set_of_ne a _ fun h => hitems h.symm
  | refused he hc hek hf =>
      refine hcopied.resolve_right fun hr => ?_
      obtain ⟨hitems, -, -, hfield⟩ := hreplaces hr he
      rw [← way.kind_eq] at hfield
      have hgroup := hf _ hfield
      rw [hitems] at hgroup
      cases hgroup

theorem Course.itemsCopied {ids : List String} {b : Note} {last : Definitions} {logs : List Log}
    (h : Course base (expandTo location depth) location chain k done a defs ids b last logs)
    (hcopied : a.ItemsCopied ∨ ∃ id ∈ ids, base.ReplacesItems chain k id) : b.ItemsCopied := by
  induction h with
  | nil way holds =>
      refine hcopied.resolve_right ?_
      rintro ⟨id, hid, -⟩
      cases hid
  | @cons done a defs id ids x b last logs way holds step rest ih =>
      refine ih ?_
      rcases hcopied with hcopied | ⟨r, hr, hreplaces⟩
      · exact .inl (step.itemsCopied way holds (.inl hcopied))
      · rcases List.mem_cons.mp hr with rfl | hr
        · exact .inl (step.itemsCopied way holds (.inr hreplaces))
        · exact .inr ⟨r, hr, hreplaces⟩

end Items

/-! ## 2. The nest fields -/

/-- No id that an annotation follows takes the place of a field. -/
def Vacant (defs : Definitions) (chain : List String) (a : Note) (f : Field) : Prop :=
  f = .items → ∀ id ∈ queue defs chain a, ¬defs.ReplacesItems chain a.kind id

/-- **What stands in the nest fields when the references of an annotation have been followed.** -/
structure Referenced (base : Definitions) (chain : List String) (a b : Note) : Prop where
  kind_eq : b.kind = a.kind
  composed : ∀ f ∈ a.kind.nestFields, Vacant base chain a f →
    ∃ vs, List.Forall₂ (Contributes (fun _ c => c.Throughout Note.Settled) base chain a.kind f)
      (queue base chain a) vs ∧ b.get f = Value.compose (a.get f :: vs)
  replaced : ¬Vacant base chain a .items → b.ItemsCopied

theorem Value.mem_notes_compose {vs : List Value} {c : Note} (h : c ∈ (Value.compose vs).notes) :
    ∃ v ∈ vs, c ∈ v.notes := by
  have hdrop : ∀ v ∈ vs.dropWhile Value.isNull, v ∈ vs :=
    fun v hv => (List.dropWhile_sublist _).subset hv
  unfold Value.compose at h
  split at h
  · cases h
  · rename_i xs later heq
    rw [heq] at hdrop
    rcases List.mem_append.mp (Value.mem_notes_list.mp h) with h | h
    · exact ⟨_, hdrop _ List.mem_cons_self, Value.mem_notes_list.mpr h⟩
    · obtain ⟨v, hv, hc⟩ := List.mem_flatMap.mp h
      refine ⟨v, hdrop v (List.mem_cons_of_mem _ hv), ?_⟩
      cases v with
      | list ys => exact Value.mem_notes_list.mpr hc
      | _ => cases hc
  · rename_i v later _ heq
    rw [heq] at hdrop
    exact ⟨v, hdrop v List.mem_cons_self, h⟩

/-- What a definition lends to a nest field stands below the definition. -/
theorem mem_children_of_lent {defs : Definitions} {chain : List String} {k : Kind} {f : Field}
    {id : String} {c : Note} (hf : f ∈ k.nestFields) (h : c ∈ (lent defs chain k f id).notes) :
    ∃ d, defs.find? id = some d ∧ c ∈ d.children := by
  unfold lent at h
  split at h
  · rename_i d hd
    split at h
    · rename_i hboth
      rw [Bool.and_eq_true, decide_eq_true_eq] at hboth
      exact ⟨d, hd, Note.mem_children.mpr ⟨f, hboth.1 ▸ hf, h⟩⟩
    · cases h
  · cases h

namespace Referenced

variable {base : Definitions} {chain : List String} {a b : Note} {P : Note → Prop}

/-- **What stands below**: annotations that stood below the annotation or below a definition, and
    settled ones. -/
theorem below (h : Referenced base chain a b) (hP : ∀ c : Note, c.Settled → P c)
    (ha : ∀ c ∈ a.children, c.Throughout P)
    (hbase : ∀ id d, base.find? id = some d → d.Throughout P) :
    ∀ c ∈ b.children, c.Throughout P := by
  intro c hc
  obtain ⟨f, hf, hcf⟩ := Note.mem_children.mp hc
  rw [h.kind_eq] at hf
  by_cases hvacant : Vacant base chain a f
  · obtain ⟨vs, hvs, hget⟩ := h.composed f hf hvacant
    rw [hget] at hcf
    obtain ⟨v, hv, hcv⟩ := Value.mem_notes_compose hcf
    rcases List.mem_cons.mp hv with rfl | hv
    · exact ha c (Note.mem_children.mpr ⟨f, hf, hcv⟩)
    · obtain ⟨id, -, hgives⟩ := exists_mem_of_forall₂ hvs hv
      rcases hgives with ⟨-, e, he, rfl⟩ | ⟨-, rfl⟩
      · have hce : c = e := by
          have hmem := List.mem_singleton.mp (Value.mem_notes_list.mp hcv)
          cases hmem
          rfl
        rw [hce]
        exact he.mono hP
      · obtain ⟨d, hd, hcd⟩ := mem_children_of_lent hf hcv
        exact (hbase id d hd).child hcd
  · have hitems : f = .items := Classical.byContradiction fun hne => hvacant fun he => absurd he hne
    subst hitems
    obtain ⟨e, hget, he⟩ := h.replaced hvacant
    rw [hget] at hcf
    rw [Value.mem_notes_note.mp hcf]
    exact he.mono hP

end Referenced

/-! ## 3. Whenever references are followed -/

section Run

variable {base defs now : Definitions} {location : String} {depth : Nat} {chain : List String}
  {a b : Note} {logs : List Log}

/-- No run changes what a nest field holds in a definition. -/
theorem untouched_of_nests {k : Kind} {f : Field} (hf : f.nests = true) (h : base.Alike defs)
    (done : List String) : Untouched base k f done defs := by
  intro r _ hr
  obtain ⟨d, hd, -⟩ := Option.map_eq_some_iff.mp hr
  obtain ⟨e, he, hde⟩ := h.find?_now hd
  rw [Definitions.column, Definitions.column, hd, he, Option.map_some, Option.map_some,
    hde.nests f hf]

theorem Course.referenced (hnodup : a.partials.Nodup)
    (h : Course base (expandTo location depth) location chain a.kind [] a defs
      (queue base chain a) b now logs) : Referenced base chain a b := by
  obtain ⟨way, holds⟩ := h.underWay
  obtain ⟨done, hlast, -⟩ := h.ends
  refine ⟨hlast.kind_eq, fun f hf hvacant => ?_, fun hnot => h.itemsCopied (.inr ?_)⟩
  · have hfields := Kind.nestFields_subset hf
    have hnests := (Kind.mem_nestFields hfields).mp hf
    obtain ⟨vs, hvs, hshows⟩ := h.composes (fun _ c => c.Throughout Note.Settled)
      (fun hI hd hy => (expandTo_settles hI
        (Custody.ready_copy ((alikeCustody False base).known hI hd)) hy).2.1)
      hfields (queue_nodup base chain hnodup) (fun _ _ => List.not_mem_nil) hvacant
      (untouched_of_nests hnests holds.1 [])
    refine ⟨vs, hvs, ?_⟩
    rw [Note.shows_of_ne_shared fun origin g hget => hlast.nested.not_mem_of_shared hget
        (hlast.kind_eq ▸ hf),
      Note.shows_of_ne_shared fun origin g hget => way.nested.not_mem_of_shared hget hf] at hshows
    exact hshows
  · exact Classical.byContradiction fun hnone => hnot fun _ id hid hr => hnone ⟨id, hid, hr⟩

/-- Without references nothing changes. -/
theorem Referenced.refl (h : a.partials = []) : Referenced base chain a a := by
  have hqueue := queue_of_partials_nil base chain h
  refine ⟨rfl, fun f hf _ => ⟨[], ?_, (Value.compose_singleton _).symm⟩, fun hnot => ?_⟩
  · rw [hqueue]
    exact .nil
  · refine absurd (fun _ id hid => ?_) hnot
    rw [hqueue] at hid
    cases hid

theorem followQueue_referenced {y : Expanded Note} (hI : (alikeCustody False base).Holds defs)
    (ha : a.Throughout (Note.Ready False)) (hnodup : a.partials.Nodup)
    (h : followIds (expandTo location depth) location chain a defs (queue defs chain a) = .ok y) :
    Referenced base chain a y.result := by
  obtain ⟨logs, ⟨hnil, hresult, -, -⟩ | hcourse, -⟩ := followQueue_course hI ha h
  · rw [hresult]
    exact .refl hnil
  · exact hcourse.referenced hnodup

end Run

/-! ## 4. Copies -/

/-- Alike annotations have the same annotations below. -/
theorem Note.Alike.children_eq {d e : Note} (h : d.Alike e) : e.children = d.children := by
  unfold Note.children
  rw [h.kind_eq]
  refine List.flatMap_congr fun f hf => ?_
  rw [h.nests f ((Kind.mem_nestFields (Kind.nestFields_subset hf)).mp hf)]

end Marginalia
