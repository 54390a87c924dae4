import Marginalia.Proofs.Expansion.Tree

/-!
# Going down

The second half of expansion goes through the nest fields of an annotation and replaces every
annotation in them by what an expander makes of it. What this does is told here once, for any
expander that turns annotations with one property into annotations with another:

* `Descends`: what is asked of the expander;
* `Descending`: the annotation on the way, with the fields that are done and those to come;
* `expandFields_meets`: in the end all annotations below have the second property.
-/

namespace Marginalia

/-! ## 1. What is asked of an expander -/

/-- The outcome of a run: it has a property, or it is a refusal where refusals are allowed. -/
def Meets {α : Type} (strict : Prop) (P : α → Prop) : Except Unexpandable α → Prop
  | .ok x => P x
  | .error _ => ¬strict

/-- An annotation that a run for an annotation of a kind leads to. If the run may not fail, this is
    one of a lower kind and no group. -/
def Asked (strict : Prop) (k : Kind) (b : Note) : Prop :=
  strict → b.kind.isGroup = false ∧ b.kind.rank < k.rank

/-- **What is asked of an expander**: annotations with one property become annotations of the same
    kind with another one, and something is kept of the definitions. -/
def Descends (strict : Prop) (I : Definitions → Prop) (before after : Note → Prop) (k : Kind)
    (inner : Expander) (chain : List String) : Prop :=
  ∀ defs b, I defs → before b → Asked strict k b →
    Meets strict (fun x => x.result.kind = b.kind ∧ after x.result ∧ I x.definitions)
      (inner chain defs b)

variable {strict : Prop} {I : Definitions → Prop} {before after : Note → Prop} {k : Kind}
  {inner : Expander} {chain : List String}

/-! ## 2. One field -/

/-- A value is what became of an annotation in a list: one of the same kind. -/
def ExpandedFrom (after : Note → Prop) (vs : List Value) (w : Value) : Prop :=
  ∃ b c : Note, .note b ∈ vs ∧ w = .note c ∧ c.kind = b.kind ∧ after c

theorem Value.Nests.list_expanded {shape : Shape} {vs ws : List Value}
    (h : (Value.list vs).Nests shape) (hw : ∀ w ∈ ws, ExpandedFrom after vs w) :
    (Value.list ws).Nests shape := by
  unfold Value.Nests at h ⊢
  split at h
  · obtain ⟨_, ⟨⟩, hall⟩ := h
    refine ⟨_, rfl, fun w hm => ?_⟩
    obtain ⟨b, c, hb, rfl, hck, -⟩ := hw w hm
    obtain ⟨_, ⟨⟩, hbk⟩ := hall _ hb
    exact ⟨c, rfl, hck.trans hbk⟩
  · exact absurd h Value.not_nests_list
  · trivial

theorem Value.Nests.note_expanded {shape : Shape} {b c : Note} (h : (Value.note b).Nests shape)
    (hk : c.kind = b.kind) : (Value.note c).Nests shape := by
  unfold Value.Nests at h ⊢
  split at h
  · obtain ⟨vs, hvs, -⟩ := h
    cases hvs
  · rcases h with h | ⟨_, ⟨⟩, hbk⟩
    · cases h
    · exact .inr ⟨c, rfl, hk.trans hbk⟩
  · trivial

/-- Expanding the members of a list. In a strict run they are all annotations. -/
theorem expandItems_meets (hinner : Descends strict I before after k inner chain)
    (vs : List Value) (defs : Definitions) (hI : I defs)
    (hready : ∀ b, .note b ∈ vs → before b ∧ Asked strict k b)
    (hnotes : strict → ∀ v ∈ vs, ∃ b, v = .note b) :
    Meets strict (fun x => (∀ w ∈ x.result, ExpandedFrom after vs w) ∧ I x.definitions)
      (expandItems inner chain defs vs) := by
  induction vs generalizing defs with
  | nil => exact ⟨fun w hw => (nomatch hw), hI⟩
  | cons v vs ih =>
      unfold expandItems
      split
      · rename_i b
        obtain ⟨hb, hasked⟩ := hready b List.mem_cons_self
        have hstep := hinner defs b hI hb hasked
        cases hx : inner chain defs b with
        | error e =>
            rw [hx] at hstep
            exact hstep
        | ok x =>
            rw [hx] at hstep
            obtain ⟨hxk, hxs, hxI⟩ := hstep
            have hrest := ih x.definitions hxI (fun c hc => hready c (List.mem_cons_of_mem _ hc))
              fun hs w hw => hnotes hs w (List.mem_cons_of_mem _ hw)
            dsimp only
            cases hy : expandItems inner chain x.definitions vs with
            | error e =>
                rw [hy] at hrest
                exact hrest
            | ok y =>
                rw [hy] at hrest
                refine ⟨fun w hw => ?_, hrest.2⟩
                rcases List.mem_cons.mp hw with rfl | hw
                · exact ⟨b, x.result, List.mem_cons_self, rfl, hxk, hxs⟩
                · obtain ⟨c, c', hc, hw⟩ := hrest.1 w hw
                  exact ⟨c, c', List.mem_cons_of_mem _ hc, hw⟩
      · rename_i hnot
        intro hs
        obtain ⟨b, hb⟩ := hnotes hs v List.mem_cons_self
        exact hnot b hb

/-- An annotation while its nest fields are expanded: those that are still to come are ready, all
    others settled. -/
structure Descending (before after : Note → Prop) (k : Kind) (rest : List Field) (a : Note) :
    Prop where
  kind_eq : a.kind = k
  settled : a.Settled
  ready : ∀ f ∈ rest, ∀ b ∈ (a.get f).notes, before b
  done : ∀ f ∈ k.nestFields, f ∉ rest → ∀ b ∈ (a.get f).notes, after b

/-- A field expanded. -/
theorem Descending.set {a : Note} {f : Field} {rest : List Field}
    (h : Descending before after k (f :: rest) a) (hf : f ∈ k.nestFields) (hnot : f ∉ rest)
    {v : Value}
    (hl : f.alwaysList = true → ∃ vs, v = .list vs) (hn : v.Nests f.shape)
    (hv : ∀ b ∈ v.notes, after b) : Descending before after k rest (a.set f v) := by
  have hget : (a.set f v).get f = v :=
    Note.get_set_self v (h.settled.toNested.mem_keys (h.kind_eq ▸ hf))
  refine ⟨h.kind_eq, ⟨h.settled.toNested.set hl fun _ => hn, h.settled.partials_nil⟩, ?_, ?_⟩
  · intro g hg b hb
    have hgf : g ≠ f := fun e => hnot (e ▸ hg)
    rw [Note.get_set_of_ne a v hgf] at hb
    exact h.ready g (List.mem_cons_of_mem f hg) b hb
  · intro g hg hgrest b hb
    by_cases hgf : g = f
    · subst hgf
      rw [hget] at hb
      exact hv b hb
    · rw [Note.get_set_of_ne a v hgf] at hb
      refine h.done g hg (fun hm => ?_) b hb
      rcases List.mem_cons.mp hm with hm | hm
      · exact hgf hm
      · exact hgrest hm

/-- A field without annotations in it needs no expansion. -/
theorem Descending.skip {a : Note} {f : Field} {rest : List Field}
    (h : Descending before after k (f :: rest) a) (hnone : (a.get f).notes = []) :
    Descending before after k rest a := by
  refine ⟨h.kind_eq, h.settled, fun g hg => h.ready g (List.mem_cons_of_mem f hg), ?_⟩
  intro g hg hgrest b hb
  by_cases hgf : g = f
  · subst hgf
    rw [hnone] at hb
    cases hb
  · refine h.done g hg (fun hm => ?_) b hb
    rcases List.mem_cons.mp hm with hm | hm
    · exact hgf hm
    · exact hgrest hm

theorem Descending.asked {a b : Note} {f : Field} {rest : List Field}
    (h : Descending before after k rest a) (hk : strict → k.isGroup = false) (hf : f ∈ k.nestFields)
    (hb : b ∈ (a.get f).notes) : Asked strict k b := by
  intro hs
  have hchild : b ∈ a.children := Note.mem_children.mpr ⟨f, h.kind_eq ▸ hf, hb⟩
  have := h.settled.toNested.kind_of_child (h.kind_eq ▸ hk hs) hchild
  rw [h.kind_eq] at this
  exact this

/-- **Expanding one field** keeps what it is for: annotations of the same kinds stand in it. -/
theorem expandField_meets (hinner : Descends strict I before after k inner chain)
    (hk : strict → k.isGroup = false) {a : Note} {defs : Definitions}
    {f : Field} {rest : List Field} (h : Descending before after k (f :: rest) a)
    (hf : f ∈ k.nestFields) (hnot : f ∉ rest) (hI : I defs) :
    Meets strict (fun x => Descending before after k rest x.result ∧ I x.definitions)
      (expandField inner chain a defs f) := by
  have hn := h.settled.toNested.nests f (h.kind_eq ▸ hf)
  have hready := h.ready f List.mem_cons_self
  have hasked : ∀ b ∈ (a.get f).notes, Asked strict k b := fun b hb => h.asked hk hf hb
  unfold expandField
  split
  · rename_i vs hvs
    rw [hvs] at hn hready hasked
    have hitems := expandItems_meets hinner vs defs hI
      (fun b hb => ⟨hready b (Value.mem_notes_list.mpr hb), hasked b (Value.mem_notes_list.mpr hb)⟩)
      fun hs v hv => h.settled.toNested.isNote_of_mem (h.kind_eq ▸ hk hs) (h.kind_eq ▸ hf) hvs hv
    cases hx : expandItems inner chain defs vs with
    | error e =>
        rw [hx] at hitems
        exact hitems
    | ok x =>
        rw [hx] at hitems
        refine ⟨h.set hf hnot (fun _ => ⟨_, rfl⟩) (hn.list_expanded hitems.1) fun b hb => ?_,
          hitems.2⟩
        obtain ⟨c, c', -, hw, -, hs⟩ := hitems.1 _ (Value.mem_notes_list.mp hb)
        cases hw
        exact hs
  · rename_i child hchild
    rw [hchild] at hn hready hasked
    have hb := Value.mem_notes_note.mpr (rfl : child = child)
    have hstep := hinner defs child hI (hready child hb) (hasked child hb)
    cases hx : inner chain defs child with
    | error e =>
        rw [hx] at hstep
        exact hstep
    | ok x =>
        rw [hx] at hstep
        obtain ⟨hxk, hxs, hxI⟩ := hstep
        refine ⟨h.set hf hnot (fun hl => ?_) (hn.note_expanded hxk) fun b hb => ?_, hxI⟩
        · obtain ⟨vs, hvs⟩ := h.settled.toNested.slotted.lists f
            (h.kind_eq ▸ Kind.nestFields_subset hf) hl
          rw [hchild] at hvs
          cases hvs
        · cases Value.mem_notes_note.mp hb
          exact hxs
  · rename_i hlist hnote
    exact ⟨h.skip (Value.notes_eq_nil hlist hnote), hI⟩

/-- Expanding nest fields one after another. -/
theorem expandFields_meets (hinner : Descends strict I before after k inner chain)
    (hk : strict → k.isGroup = false) (fields : List Field)
    (hsub : ∀ f ∈ fields, f ∈ k.nestFields) (hnodup : fields.Nodup) (a : Note) (defs : Definitions)
    (h : Descending before after k fields a) (hI : I defs) :
    Meets strict (fun x => Descending before after k [] x.result ∧ I x.definitions)
      (expandFields inner chain a defs fields) := by
  induction fields generalizing a defs with
  | nil => exact ⟨h, hI⟩
  | cons f fields ih =>
      obtain ⟨hnot, hrest⟩ := List.nodup_cons.mp hnodup
      have hstep := expandField_meets hinner hk h (hsub f List.mem_cons_self) hnot hI
      unfold expandFields
      cases hx : expandField inner chain a defs f with
      | error e =>
          rw [hx] at hstep
          exact hstep
      | ok x =>
          rw [hx] at hstep
          have hmore := ih (fun g hg => hsub g (List.mem_cons_of_mem f hg)) hrest x.result
            x.definitions hstep.1 hstep.2
          dsimp only
          cases hy : expandFields inner chain x.result x.definitions fields with
          | error e =>
              rw [hy] at hmore
              exact hmore
          | ok y =>
              rw [hy] at hmore
              exact hmore

/-- In the end everything below has been expanded. -/
theorem Descending.of_mem_children {a b : Note} (h : Descending before after k [] a)
    (hb : b ∈ a.children) : after b := by
  obtain ⟨f, hf, hbf⟩ := Note.mem_children.mp hb
  exact h.done f (h.kind_eq ▸ hf) List.not_mem_nil b hbf

end Marginalia
