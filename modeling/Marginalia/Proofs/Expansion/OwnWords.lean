import Mathlib.Data.List.Forall2
import Marginalia.Proofs.Expansion.Tree

/-!
# What an annotation says itself

Expansion adds to an annotation what it refers to. This module says what becomes of that which the
annotation had said before:

* `Value.Gains`: a field gains something. What was unsaid may be said now, a list has more items at
  its end, and everything else is as it was;
* `Definitions.Grown`: so do the lists of the definitions in the course of a run;
* `Retains`: what following references keeps. Merging a definition and adding to a list are gains
  (`mergeFields_retains`, `followId_retains`); a definition that is put in the place of the items of
  an annotation is not (`Definitions.ReplacesItems`);
* `own_words_survive`: in a whole run every field gains, the annotations in the nest fields being
  replaced by what their own expansion makes of them. Only the items of an annotation that also
  refers to a definition of items are lost.
-/

namespace Marginalia

/-! ## 1. Fields that gain -/

/-- **A field gains something**: if it was unsaid it may hold anything, if it was a list it has more
    items at the end, otherwise it is as it was. -/
def Value.Gains : (before after : Value) → Prop
  | .null, _ => True
  | .list vs, w => ∃ more, w = .list (vs ++ more)
  | v, w => w = v

namespace Value.Gains

theorem refl (v : Value) : v.Gains v := by
  cases v with
  | null => trivial
  | list vs => exact ⟨[], by rw [List.append_nil]⟩
  | _ => rfl

theorem trans {u v w : Value} (h : u.Gains v) (h' : v.Gains w) : u.Gains w := by
  cases u with
  | null => trivial
  | list vs =>
      obtain ⟨more, rfl⟩ := h
      obtain ⟨rest, rfl⟩ := h'
      exact ⟨more ++ rest, by rw [List.append_assoc]⟩
  | _ =>
      cases h
      exact h'

end Value.Gains

theorem Note.mem_keys_of_ne_null {a : Note} {f : Field} (h : a.get f ≠ .null) : f ∈ a.keys :=
  Classical.byContradiction fun hf => h (get_of_not_mem hf)

/-! ## 2. Definitions that grow -/

/-- **Definitions grow**: the ids find definitions of the same kinds, and the lists of these keep
    their items in front. -/
structure Definitions.Grown (defs now : Definitions) : Prop where
  kinds : ∀ id, (now.find? id).map (·.kind) = (defs.find? id).map (·.kind)
  lists : ∀ origin g, (defs.sharedList origin g).items <+: (now.sharedList origin g).items

namespace Definitions.Grown

theorem refl (defs : Definitions) : defs.Grown defs := ⟨fun _ => rfl, fun _ _ => List.prefix_rfl⟩

theorem trans {defs now later : Definitions} (h : defs.Grown now) (h' : now.Grown later) :
    defs.Grown later :=
  ⟨fun id => (h'.kinds id).trans (h.kinds id), fun o g => (h.lists o g).trans (h'.lists o g)⟩

theorem extend (defs : Definitions) (origin : String) (f : Field) (items : List Value) :
    defs.Grown (defs.extend origin f items) where
  kinds id := by
    rw [find?_extend, Option.map_map]
    congr 1
    funext d
    show (if id = origin then d.extend f items else d).kind = d.kind
    split <;> rfl
  lists o g := by
    unfold sharedList
    rw [find?_extend]
    cases defs.find? o with
    | none => exact List.prefix_rfl
    | some d =>
        show (d.get g).items <+: ((if o = origin then d.extend f items else d).get g).items
        split
        · by_cases hg : g = f
          · subst hg
            rcases d.get_set_cases g g (.list ((d.get g).items ++ items)) with hset | hset
            · rw [Note.extend, hset]
              exact List.prefix_append _ _
            · exact ⟨[], by rw [List.append_nil, Note.extend, hset]⟩
          · exact ⟨[], by rw [List.append_nil, Note.get_extend_of_ne d items hg]⟩
        · exact List.prefix_rfl

end Definitions.Grown

/-! ## 3. Merging -/

/-- **What a step keeps of an annotation** and of the definitions: every field gains, but for the
    items if their place is taken. -/
structure Retains (taken : Prop) (a : Note) (defs : Definitions) (b : Note) (now : Definitions) :
    Prop where
  kind_eq : b.kind = a.kind
  partialId_eq : b.partialId = a.partialId
  keys_eq : b.keys = a.keys
  gains : a.Slotted → ∀ f, (f = .items → ¬taken) → (a.get f).Gains (b.get f)
  grown : defs.Grown now

namespace Retains

variable {taken taken' : Prop} {a b c : Note} {defs now later : Definitions}

theorem refl (a : Note) (defs : Definitions) : Retains taken a defs a defs :=
  ⟨rfl, rfl, rfl, fun _ _ _ => .refl _, .refl _⟩

/-- Fields that always hold a list still do. -/
theorem slotted (h : Retains taken a defs b now) (ha : a.Slotted) : b.Slotted where
  keys_eq := by rw [h.keys_eq, h.kind_eq, ha.keys_eq]
  lists f hf hl := by
    obtain ⟨vs, hvs⟩ := ha.lists f (h.kind_eq ▸ hf) hl
    have hitems : f ≠ .items := by
      rintro rfl
      cases hl
    have hgains := h.gains ha f fun he => absurd he hitems
    rw [hvs] at hgains
    obtain ⟨more, hmore⟩ := hgains
    exact ⟨_, hmore⟩

theorem trans (h : Retains taken a defs b now) (h' : Retains taken b now c later) :
    Retains taken a defs c later where
  kind_eq := h'.kind_eq.trans h.kind_eq
  partialId_eq := h'.partialId_eq.trans h.partialId_eq
  keys_eq := h'.keys_eq.trans h.keys_eq
  gains ha f hf := (h.gains ha f hf).trans (h'.gains (h.slotted ha) f hf)
  grown := h.grown.trans h'.grown

theorem mono (h : Retains taken a defs b now) (ht : taken → taken') : Retains taken' a defs b now :=
  { h with gains := fun ha f hf => h.gains ha f fun he t => hf he (ht t) }

theorem set {f : Field} {v : Value} (hgrown : defs.Grown now)
    (hv : a.Slotted → (f = .items → ¬taken) → (a.get f).Gains v) :
    Retains taken a defs (a.set f v) now where
  kind_eq := rfl
  partialId_eq := rfl
  keys_eq := a.keys_set f v
  gains ha g hg := by
    by_cases hgf : g = f
    · subst hgf
      rcases a.get_set_cases g g v with hset | hset
      · rw [hset]
        exact hv ha hg
      · rw [hset]
        exact .refl _
    · rw [Note.get_set_of_ne a v hgf]
      exact .refl _
  grown := hgrown

end Retains

/-- Merging a field takes no place. -/
theorem mergeField_retains {id : String} {d a b : Note} {defs now : Definitions} {f : Field}
    (h : mergeField id d a defs f = .ok (b, now)) : Retains False a defs b now := by
  unfold mergeField at h
  split at h
  · rename_i xs ys hx hy
    cases h
    refine .set (.refl _) fun _ _ => ?_
    rw [hx]
    exact ⟨ys, rfl⟩
  · rename_i origin g ys hx hy
    split at h
    · cases h
    · cases h
      exact { Retains.refl a defs with grown := .extend defs origin g ys }
  · rename_i ys hx hy
    cases h
    refine .set (.refl _) fun _ _ => ?_
    rw [hx]
    trivial
  · rename_i hx _
    cases h
    refine .set (.refl _) fun _ _ => ?_
    rw [hx]
    trivial
  · cases h
    exact .refl _ _

theorem mergeFields_retains {id : String} {d : Note} (fields : List Field) {a b : Note}
    {defs now : Definitions} (h : mergeFields id d a defs fields = .ok (b, now)) :
    Retains False a defs b now := by
  induction fields generalizing a defs with
  | nil =>
      cases h
      exact .refl _ _
  | cons f fields ih =>
      unfold mergeFields at h
      cases hx : mergeField id d a defs f with
      | error e =>
          rw [hx] at h
          cases h
      | ok x =>
          rw [hx] at h
          exact (mergeField_retains hx).trans (ih h)

/-! ## 4. Following references -/

/-- **The definition of an id takes the place of the items** of an annotation of a kind. -/
def Definitions.ReplacesItems (defs : Definitions) (chain : List String) (k : Kind) (id : String) :
    Prop :=
  (defs.find? id).map (·.kind) = some .items ∧ id ∉ chain ∧ .items ∈ k.nestFields

theorem Definitions.Grown.replacesItems_iff {defs now : Definitions} (h : defs.Grown now)
    {chain : List String} {k : Kind} {id : String} :
    now.ReplacesItems chain k id ↔ defs.ReplacesItems chain k id := by
  unfold Definitions.ReplacesItems
  rw [h.kinds id]

/-- The only field that a nested annotation is put into in the place of another one. -/
theorem Kind.items_of_nestField? {outer inner : Kind} {f : Field}
    (h : outer.nestField? inner = some f) (hl : f.alwaysList = false) :
    inner = .items ∧ f = .items := by
  revert hl
  cases outer <;> cases inner <;> cases h <;> decide

theorem Kind.nestField?_items {k : Kind} (h : .items ∈ k.nestFields) :
    k.nestField? .items = some .items ∧ k ≠ .items := by
  revert h
  cases k <;> decide

/-- What is asked of the expander of the annotations below: that definitions grow. -/
def Expander.Grows (inner : Expander) : Prop :=
  ∀ {chain defs a x}, inner chain defs a = .ok x → defs.Grown x.definitions

section Follow

variable {inner : Expander} {location : String} {chain : List String} {a : Note}
  {defs : Definitions} {id : String} {x : Expanded Note}

/-- **One reference**: a definition is merged, or added to a list, or takes the place of the
    items. -/
theorem followId_retains (hinner : inner.Grows)
    (h : followId inner location chain a defs id = .ok x) :
    Retains (defs.ReplacesItems chain a.kind id) a defs x.result x.definitions := by
  unfold followId at h
  split at h
  · cases h
    exact .refl _ _
  · rename_i d hd
    split at h
    · cases h
      exact .refl _ _
    · rename_i hchain
      split at h
      · cases hm : merge id d a defs with
        | error e =>
            rw [hm] at h
            cases h
        | ok y =>
            rw [hm] at h
            cases h
            exact (mergeFields_retains a.kind.fields hm).mono False.elim
      · split at h
        · rename_i f hf
          split at h
          · cases h
            exact .refl _ _
          · cases hy : inner (chain ++ [id]) defs d.asCopy with
            | error e =>
                rw [hy] at h
                cases h
            | ok y =>
                rw [hy] at h
                cases h
                obtain ⟨hnest, hfields⟩ := Kind.nestField?_mem hf
                show Retains _ a defs (a.insert f y.result) y.definitions
                unfold Note.insert
                cases hl : f.alwaysList with
                | true =>
                    refine .set (hinner hy) fun ha _ => ?_
                    obtain ⟨vs, hvs⟩ := ha.lists f hfields hl
                    rw [hvs]
                    exact ⟨_, rfl⟩
                | false =>
                    obtain ⟨hitems, rfl⟩ := Kind.items_of_nestField? hf hl
                    refine .set (hinner hy) fun _ hfree => ?_
                    have hfind : (defs.find? id).map (·.kind) = some .items := by
                      rw [hd, Option.map_some, hitems]
                    refine absurd ⟨hfind, fun hm => ?_, hnest⟩ (hfree rfl)
                    exact hchain (List.contains_iff_mem.mpr hm)
        · cases h
          exact .refl _ _

/-- The reference that takes the place of the items puts an expanded copy there. -/
theorem followId_replaces (ha : a.Slotted) (hid : defs.ReplacesItems chain a.kind id)
    (h : followId inner location chain a defs id = .ok x) :
    ∃ d y, defs.find? id = some d ∧ inner (chain ++ [id]) defs d.asCopy = .ok y ∧
      x.result.get .items = .note y.result := by
  obtain ⟨hfind, hchain, hnest⟩ := hid
  obtain ⟨d, hd, hk⟩ := Option.map_eq_some_iff.mp hfind
  obtain ⟨hfield, hne⟩ := Kind.nestField?_items hnest
  have hcontains : chain.contains id = false :=
    Bool.eq_false_iff.mpr fun hm => hchain (List.contains_iff_mem.mp hm)
  have hkind : d.kind ≠ a.kind := fun heq => hne (heq.symm.trans hk)
  have hgroup : d.kind.isGroup = false := by
    rw [hk]
    rfl
  unfold followId at h
  rw [hd] at h
  dsimp only at h
  rw [hcontains, if_neg Bool.false_ne_true, if_neg hkind, hk, hfield] at h
  dsimp only at h
  rw [← hk, hgroup, if_neg Bool.false_ne_true] at h
  cases hy : inner (chain ++ [id]) defs d.asCopy with
  | error e =>
      rw [hy] at h
      cases h
  | ok y =>
      rw [hy] at h
      cases h
      exact ⟨d, y, hd, hy, Note.get_set_self _ (ha.mem (Kind.nestFields_subset hnest))⟩

/-- A row of references that is followed to its end, taken apart at the first of them. -/
theorem followIds_cons {ids : List String}
    (h : followIds inner location chain a defs (id :: ids) = .ok x) :
    ∃ y z, followId inner location chain a defs id = .ok y ∧
      followIds inner location chain y.result y.definitions ids = .ok z ∧
      z.result = x.result ∧ z.definitions = x.definitions := by
  unfold followIds at h
  cases hy : followId inner location chain a defs id with
  | error e =>
      rw [hy] at h
      cases h
  | ok y =>
      rw [hy] at h
      dsimp only at h
      cases hz : followIds inner location chain y.result y.definitions ids with
      | error e =>
          rw [hz] at h
          cases h
      | ok z =>
          rw [hz] at h
          cases h
          exact ⟨y, z, rfl, hz, rfl, rfl⟩

/-- **All references**: every field gains, but for the items if one of the references takes their
    place. -/
theorem followIds_retains (hinner : inner.Grows) (ids : List String)
    (h : followIds inner location chain a defs ids = .ok x) :
    Retains (∃ id ∈ ids, defs.ReplacesItems chain a.kind id) a defs x.result x.definitions := by
  induction ids generalizing a defs x with
  | nil =>
      cases h
      exact .refl _ _
  | cons id ids ih =>
      obtain ⟨y, z, hy, hz, hresult, hdefs⟩ := followIds_cons h
      have hstep := followId_retains hinner hy
      have hrest := ih hz
      rw [hstep.kind_eq] at hrest
      rw [← hresult, ← hdefs]
      refine (hstep.mono fun hid => ?_).trans (hrest.mono ?_)
      · exact ⟨id, List.mem_cons_self, hid⟩
      · rintro ⟨r, hr, hrep⟩
        exact ⟨r, List.mem_cons_of_mem id hr, hstep.grown.replacesItems_iff.mp hrep⟩

/-- The last of the references that take the place of the items decides what is there. -/
theorem followIds_replaces (hinner : inner.Grows) {ids before after : List String}
    (hids : ids = before ++ id :: after) (ha : a.Slotted)
    (hid : defs.ReplacesItems chain a.kind id)
    (hlast : ∀ r ∈ after, ¬defs.ReplacesItems chain a.kind r)
    (h : followIds inner location chain a defs ids = .ok x) :
    ∃ now d y, defs.Grown now ∧ now.find? id = some d ∧
      inner (chain ++ [id]) now d.asCopy = .ok y ∧ x.result.get .items = .note y.result := by
  subst hids
  induction before generalizing a defs x with
  | nil =>
      obtain ⟨y, z, hy, hz, hresult, -⟩ := followIds_cons h
      have hstep := followId_retains hinner hy
      obtain ⟨d, c, hd, hc, hitems⟩ := followId_replaces ha hid hy
      -- none of the references that follow touches the copy
      have hkept : (y.result.get .items).Gains (z.result.get .items) := by
        refine (followIds_retains hinner after hz).gains (hstep.slotted ha) .items ?_
        rintro - ⟨r, hr, hrep⟩
        rw [hstep.kind_eq, hstep.grown.replacesItems_iff] at hrep
        exact hlast r hr hrep
      rw [hitems, hresult] at hkept
      exact ⟨defs, d, c, .refl _, hd, hc, hkept⟩
  | cons first before ih =>
      obtain ⟨y, z, hy, hz, hresult, -⟩ := followIds_cons h
      have hstep := followId_retains hinner hy
      have hiff : ∀ r, y.definitions.ReplacesItems chain y.result.kind r ↔
          defs.ReplacesItems chain a.kind r := fun r => by
        rw [hstep.kind_eq, hstep.grown.replacesItems_iff]
      obtain ⟨now, d, c, hgrown, hrest⟩ := ih (hstep.slotted ha) ((hiff id).mpr hid)
        (fun r hr hrep => hlast r hr ((hiff r).mp hrep)) hz
      rw [hresult] at hrest
      exact ⟨now, d, c, hstep.grown.trans hgrown, hrest⟩

end Follow

/-! ## 5. Going down -/

/-- A list item that is an annotation, and what becomes of it. -/
def Value.BecomesItem (E : Note → Note → Prop) (v w : Value) : Prop :=
  ∃ b c, v = .note b ∧ w = .note c ∧ E b c

/-- What becomes of a nest field when the annotations in it are expanded. -/
def Value.Becomes (E : Note → Note → Prop) : (before after : Value) → Prop
  | .list vs, w => ∃ ws, w = .list ws ∧ List.Forall₂ (Value.BecomesItem E) vs ws
  | .note b, w => ∃ c, w = .note c ∧ E b c
  | v, w => w = v

/-- **A nest field survives**: if it was a list it starts with what became of its items, if it was
    an annotation it is what became of it, and anything else but null is as it was. -/
def Value.Survives (E : Note → Note → Prop) : (before after : Value) → Prop
  | .null, _ => True
  | .list vs, w => ∃ ws more, w = .list (ws ++ more) ∧ List.Forall₂ (Value.BecomesItem E) vs ws
  | .note b, w => ∃ c, w = .note c ∧ E b c
  | v, w => w = v

/-- What gains and is expanded then survives. -/
theorem Value.Gains.survives {E : Note → Note → Prop} {u v w : Value} (h : u.Gains v)
    (h' : v.Becomes E w) : u.Survives E w := by
  cases u with
  | null => trivial
  | list vs =>
      obtain ⟨more, rfl⟩ := h
      obtain ⟨ws, rfl, hws⟩ := h'
      have hfront := List.forall₂_take vs.length hws
      rw [List.take_left] at hfront
      exact ⟨ws.take vs.length, ws.drop vs.length, by rw [List.take_append_drop], hfront⟩
  | note b =>
      cases h
      exact h'
  | _ =>
      cases h
      exact h'

section Descent

variable {inner : Expander} {location : String} {chain : List String} {start : Definitions}
  {E : Note → Note → Prop}

/-- What an expander makes of annotations at any time after a start is an instance of `E`. -/
def Expander.Makes (inner : Expander) (chain : List String) (start : Definitions)
    (E : Note → Note → Prop) : Prop :=
  ∀ {now b x}, start.Grown now → inner chain now b = .ok x → E b x.result

theorem expandItems_becomes (hinner : inner.Grows) (hE : inner.Makes chain start E)
    (vs : List Value) {defs : Definitions} {x : Expanded (List Value)} (hstart : start.Grown defs)
    (h : expandItems inner chain defs vs = .ok x) :
    List.Forall₂ (Value.BecomesItem E) vs x.result ∧ defs.Grown x.definitions := by
  induction vs generalizing defs x with
  | nil =>
      cases h
      exact ⟨.nil, .refl _⟩
  | cons v vs ih =>
      unfold expandItems at h
      split at h
      · rename_i b
        cases hy : inner chain defs b with
        | error e =>
            rw [hy] at h
            cases h
        | ok y =>
            rw [hy] at h
            dsimp only at h
            cases hz : expandItems inner chain y.definitions vs with
            | error e =>
                rw [hz] at h
                cases h
            | ok z =>
                rw [hz] at h
                cases h
                obtain ⟨hrest, hgrown⟩ := ih (hstart.trans (hinner hy)) hz
                exact ⟨.cons ⟨b, _, rfl, rfl, hE hstart hy⟩ hrest, (hinner hy).trans hgrown⟩
      · cases h

/-- **What expanding nest fields does to an annotation**: the annotations in them become what the
    expander makes of them, and all other fields are as they were. -/
structure Lowered (E : Note → Note → Prop) (fields : List Field) (a : Note) (defs : Definitions)
    (b : Note) (now : Definitions) : Prop where
  kind_eq : b.kind = a.kind
  partialId_eq : b.partialId = a.partialId
  becomes : ∀ f ∈ fields, (a.get f).Becomes E (b.get f)
  others : ∀ f, f ∉ fields → b.get f = a.get f
  grown : defs.Grown now

theorem Lowered.set {a : Note} {defs now : Definitions} {f : Field} {v : Value}
    (hf : a.get f ≠ .null) (hv : (a.get f).Becomes E v) (hgrown : defs.Grown now) :
    Lowered E [f] a defs (a.set f v) now where
  kind_eq := rfl
  partialId_eq := rfl
  becomes g hg := by
    cases List.mem_singleton.mp hg
    rw [Note.get_set_self v (Note.mem_keys_of_ne_null hf)]
    exact hv
  others g hg := Note.get_set_of_ne a v fun h => hg (List.mem_singleton.mpr h)
  grown := hgrown

theorem expandField_lowers (hinner : inner.Grows) (hE : inner.Makes chain start E) {a : Note}
    {defs : Definitions} {f : Field} {x : Expanded Note} (hstart : start.Grown defs)
    (h : expandField inner chain a defs f = .ok x) :
    Lowered E [f] a defs x.result x.definitions := by
  unfold expandField at h
  split at h
  · rename_i vs hvs
    cases hy : expandItems inner chain defs vs with
    | error e =>
        rw [hy] at h
        cases h
    | ok y =>
        rw [hy] at h
        cases h
        obtain ⟨hitems, hgrown⟩ := expandItems_becomes hinner hE vs hstart hy
        refine .set ?_ ?_ hgrown
        · rw [hvs]
          exact nofun
        · rw [hvs]
          exact ⟨_, rfl, hitems⟩
  · rename_i child hchild
    cases hy : inner chain defs child with
    | error e =>
        rw [hy] at h
        cases h
    | ok y =>
        rw [hy] at h
        cases h
        have hgrown := hinner hy
        refine .set ?_ ?_ hgrown
        · rw [hchild]
          exact nofun
        · rw [hchild]
          exact ⟨_, rfl, hE hstart hy⟩
  · rename_i hlist hnote
    cases h
    refine ⟨rfl, rfl, fun g hg => ?_, fun _ _ => rfl, .refl _⟩
    cases List.mem_singleton.mp hg
    cases hget : a.get f with
    | list vs => exact absurd hget (hlist vs)
    | note b => exact absurd hget (hnote b)
    | _ => rfl

theorem expandFields_lowers (hinner : inner.Grows) (hE : inner.Makes chain start E)
    (fields : List Field) (hnodup : fields.Nodup) {a : Note} {defs : Definitions}
    {x : Expanded Note} (hstart : start.Grown defs)
    (h : expandFields inner chain a defs fields = .ok x) :
    Lowered E fields a defs x.result x.definitions := by
  induction fields generalizing a defs x with
  | nil =>
      cases h
      exact ⟨rfl, rfl, fun _ hf => (nomatch hf), fun _ _ => rfl, .refl _⟩
  | cons f fields ih =>
      obtain ⟨hnot, hrest⟩ := List.nodup_cons.mp hnodup
      unfold expandFields at h
      cases hy : expandField inner chain a defs f with
      | error e =>
          rw [hy] at h
          cases h
      | ok y =>
          rw [hy] at h
          dsimp only at h
          cases hz : expandFields inner chain y.result y.definitions fields with
          | error e =>
              rw [hz] at h
              cases h
          | ok z =>
              rw [hz] at h
              cases h
              have hfirst := expandField_lowers hinner hE hstart hy
              have hmore := ih hrest (hstart.trans hfirst.grown) hz
              refine ⟨hmore.kind_eq.trans hfirst.kind_eq,
                hmore.partialId_eq.trans hfirst.partialId_eq, fun g hg => ?_, fun g hg => ?_,
                hfirst.grown.trans hmore.grown⟩
              · by_cases hgf : g = f
                · subst hgf
                  show (a.get g).Becomes E (z.result.get g)
                  rw [hmore.others g hnot]
                  exact hfirst.becomes g List.mem_cons_self
                · have hg := (List.mem_cons.mp hg).resolve_left hgf
                  have hsame := hfirst.others g fun hm => hgf (List.mem_singleton.mp hm)
                  rw [← hsame]
                  exact hmore.becomes g hg
              · obtain ⟨hgf, hg⟩ := not_or.mp fun hm => hg (List.mem_cons.mpr hm)
                show z.result.get g = a.get g
                rw [hmore.others g hg]
                exact hfirst.others g fun hm => hgf (List.mem_singleton.mp hm)

end Descent

/-! ## 6. A whole run -/

/-- **An annotation becomes another one by its own expansion**, at some time after the definitions
    were as given. -/
def ExpandsTo (location : String) (chain : List String) (defs : Definitions) (b c : Note) : Prop :=
  ∃ depth now x, defs.Grown now ∧ expandTo location depth chain now b = .ok x ∧ x.result = c

section Run

variable {location : String} {depth : Nat} {chain : List String} {a : Note}
  {defs : Definitions} {x : Expanded Note}

/-- A run taken apart: the references are followed, and then the nest fields are expanded. -/
theorem expandTo_succ (h : expandTo location (depth + 1) chain defs a = .ok x) :
    ∃ y z, followIds (expandTo location depth) location chain a defs (queue defs chain a) = .ok y ∧
      expandFields (expandTo location depth) chain { y.result with partials := [] } y.definitions
        a.kind.nestFields = .ok z ∧
      z.result = x.result ∧ z.definitions = x.definitions := by
  unfold expandTo at h
  dsimp only at h
  cases hy : followIds (expandTo location depth) location chain a defs (queue defs chain a) with
  | error e =>
      rw [hy] at h
      cases h
  | ok y =>
      rw [hy] at h
      dsimp only at h
      cases hz : expandFields (expandTo location depth) chain { y.result with partials := [] }
          y.definitions a.kind.nestFields with
      | error e =>
          rw [hz] at h
          cases h
      | ok z =>
          rw [hz] at h
          cases h
          exact ⟨y, z, rfl, hz, rfl, rfl⟩

/-- **Definitions grow in the course of a run.** -/
theorem expandTo_grows (location : String) (depth : Nat) : (expandTo location depth).Grows := by
  induction depth with
  | zero =>
      intro chain defs a x h
      cases h
  | succ depth ih =>
      intro chain defs a x h
      obtain ⟨y, z, hy, hz, -, hdefs⟩ := expandTo_succ h
      have hfollow := followIds_retains ih _ hy
      have hdown := expandFields_lowers (E := fun _ _ => True) ih (fun _ _ => trivial)
        a.kind.nestFields a.kind.nestFields_nodup (.refl _) hz
      rw [← hdefs]
      exact hfollow.grown.trans hdown.grown

/-- **What an annotation says itself survives its expansion.** Every field gains; in the nest fields
    the annotations that were there have become what their own expansion makes of them. The only
    exception are the items of an annotation that has some and refers to a definition of items: the
    last such reference puts an expanded copy in their place, which is then expanded as they would
    have been. -/
theorem own_words_survive (ha : a.Slotted) (h : expandTo location depth chain defs a = .ok x) :
    x.result.kind = a.kind ∧ x.result.partialId = a.partialId ∧ defs.Grown x.definitions ∧
      (∀ f, (f = .items → a.get f ≠ .null →
          ¬∃ id ∈ queue defs chain a, defs.ReplacesItems chain a.kind id) →
        if f ∈ a.kind.nestFields then
          (a.get f).Survives (ExpandsTo location chain defs) (x.result.get f)
        else (a.get f).Gains (x.result.get f)) ∧
      ∀ before id after, queue defs chain a = before ++ id :: after →
        defs.ReplacesItems chain a.kind id →
        (∀ r ∈ after, ¬defs.ReplacesItems chain a.kind r) →
          ∃ now d b c, defs.Grown now ∧ now.find? id = some d ∧
            ExpandsTo location (chain ++ [id]) defs d.asCopy b ∧
            ExpandsTo location chain defs b c ∧ x.result.get .items = .note c := by
  cases depth with
  | zero => cases h
  | succ depth =>
      have hgrows : (expandTo location depth).Grows := expandTo_grows location depth
      obtain ⟨y, z, hy, hz, hresult, hdefs⟩ := expandTo_succ h
      have hfollow := followIds_retains hgrows _ hy
      have hmakes : (expandTo location depth).Makes chain defs (ExpandsTo location chain defs) :=
        fun hgrown hx => ⟨depth, _, _, hgrown, hx, rfl⟩
      have hdown := expandFields_lowers hgrows hmakes a.kind.nestFields a.kind.nestFields_nodup
        hfollow.grown hz
      rw [hresult, hdefs] at hdown
      refine ⟨hdown.kind_eq.trans hfollow.kind_eq, hdown.partialId_eq.trans hfollow.partialId_eq,
        hfollow.grown.trans hdown.grown, fun f hf => ?_, fun before id after hids hid hlast => ?_⟩
      · have hgains : (a.get f).Gains (y.result.get f) := by
          by_cases hnull : a.get f = .null
          · rw [hnull]
            trivial
          · exact hfollow.gains ha f fun he => hf he hnull
        split
        · rename_i hnest
          exact hgains.survives (hdown.becomes f hnest)
        · rename_i hnest
          rw [hdown.others f hnest]
          exact hgains
      · obtain ⟨now, d, c, hgrown, hd, hc, hitems⟩ := followIds_replaces hgrows hids ha hid hlast hy
        obtain ⟨-, -, hnest⟩ := hid
        have hbecomes := hdown.becomes .items hnest
        have hbare : ({ y.result with partials := [] } : Note).get .items = .note c.result := hitems
        rw [hbare] at hbecomes
        obtain ⟨e, he, hce⟩ := hbecomes
        exact ⟨now, d, c.result, e, hgrown, hd, ⟨depth, now, c, hgrown, hc, rfl⟩, hce, he⟩

end Run

/-- Items of a type. -/
def itemsOf (type : String) : Note := (Note.blank .items).set .type (.text type)

/-- A property that is a list of texts, and refers to a definition all the same. -/
def taggedProperty : Note :=
  ((Note.referring .property ["I"]).set .name (.text "tags")).set .items (.note (itemsOf "string"))

/-- The property keeps its name, but its items are of the type that the definition has. -/
theorem own_words_survive_except_items :
    ∃ x, expand "pets.php" [("I", itemsOf "int")] taggedProperty = .ok x ∧
      x.result.get .name = .text "tags" ∧
      (taggedProperty.get .items).notes.map (·.text? .type) = [some "string"] ∧
      (x.result.get .items).notes.map (·.text? .type) = [some "int"] := by
  have hslotted : taggedProperty.Slotted := by
    have hblank := Note.Slotted.blank .property
    have hrefs : (Note.referring .property ["I"]).Slotted := ⟨hblank.keys_eq, hblank.lists⟩
    exact (hrefs.set fun hl => absurd hl (by decide)).set fun hl => absurd hl (by decide)
  have htype : ((expand "pets.php" [("I", itemsOf "int")] taggedProperty).toOption.map fun x =>
      (x.result.get .items).notes.map (·.text? .type)) = some [some "int"] := by
    decide +kernel
  cases hx : expand "pets.php" [("I", itemsOf "int")] taggedProperty with
  | error e =>
      rw [hx] at htype
      cases htype
  | ok x =>
      rw [hx] at htype
      have hname := (own_words_survive hslotted hx).2.2.2.1 .name fun h => absurd h (by decide)
      exact ⟨x, rfl, hname, rfl, Option.some.inj htype⟩

end Marginalia
