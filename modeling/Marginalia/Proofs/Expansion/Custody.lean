import Marginalia.Proofs.Expansion.Descent

/-!
# What a run of expansion keeps

Expansion changes the annotation that it expands, and sometimes a definition: a list that an
annotation has from a definition grows there. Whatever one wants to know about the definitions
during a run is a `Custody`: a property of the definitions that survives such growth. From it this
module derives what a run does, step by step:

* `UnderWay`: the annotation while its references are followed. Every list that it has in common
  with a definition comes from an id that was followed before;
* `merge_meets`, `followIds_meets`: following references keeps both;
* `expandTo_meets`: so does a whole run, and what comes out is settled.

A custody is `strict` if the run may not fail. Then no id is followed twice, as it would be refused
when a list is extended by itself, and no group is met.
-/

namespace Marginalia

/-! ## 1. The ids to follow are distinct -/

theorem newIds_nodup (seen ids : List String) :
    (newIds seen ids).Nodup ∧ ∀ id ∈ newIds seen ids, id ∉ seen := by
  induction ids generalizing seen with
  | nil => exact ⟨List.nodup_nil, fun id h => nomatch h⟩
  | cons id ids ih =>
      unfold newIds
      split
      · exact ih seen
      · rename_i hnew
        obtain ⟨hnodup, hnot⟩ := ih (seen ++ [id])
        have hid : id ∉ seen := fun h => hnew (List.contains_iff_mem.mpr h)
        refine ⟨List.nodup_cons.mpr ⟨fun h => hnot id h ?_, hnodup⟩, fun r hr => ?_⟩
        · exact List.mem_append_right _ List.mem_cons_self
        · rcases List.mem_cons.mp hr with rfl | hr
          · exact hid
          · exact fun h => hnot r hr (List.mem_append_left _ h)

theorem queueFrom_nodup (defs : Definitions) (kind : Kind) (chain seen waiting : List String)
    (hnodup : waiting.Nodup) (hseen : ∀ id ∈ waiting, id ∈ seen) :
    (queueFrom defs kind chain seen waiting).Nodup ∧
      ∀ id ∈ queueFrom defs kind chain seen waiting, id ∈ waiting ∨ id ∉ seen := by
  fun_induction queueFrom defs kind chain seen waiting with
  | case1 seen => exact ⟨List.nodup_nil, fun id h => nomatch h⟩
  | case2 seen id waiting fresh ih =>
      obtain ⟨hfresh, hnot⟩ := newIds_nodup seen (passedOn defs kind chain id)
      obtain ⟨hid, hwaiting⟩ := List.nodup_cons.mp hnodup
      have hidSeen := hseen id List.mem_cons_self
      have hseen' : ∀ r ∈ waiting, r ∈ seen := fun r hr => hseen r (List.mem_cons_of_mem id hr)
      have hrow : (waiting ++ fresh).Nodup := List.nodup_append.mpr
        ⟨hwaiting, hfresh, fun r hr s hs hrs => hnot s hs (hrs ▸ hseen' r hr)⟩
      obtain ⟨htail, hfrom⟩ := ih hrow fun r hr => by
        rcases List.mem_append.mp hr with hr | hr
        · exact List.mem_append_left _ (hseen' r hr)
        · exact List.mem_append_right _ hr
      refine ⟨List.nodup_cons.mpr ⟨fun h => ?_, htail⟩, fun r hr => ?_⟩
      · rcases hfrom id h with hm | hm
        · rcases List.mem_append.mp hm with hm | hm
          · exact hid hm
          · exact hnot id hm hidSeen
        · exact hm (List.mem_append_left _ hidSeen)
      · rcases List.mem_cons.mp hr with rfl | hr
        · exact .inl List.mem_cons_self
        · rcases hfrom r hr with hm | hm
          · rcases List.mem_append.mp hm with hm | hm
            · exact .inl (List.mem_cons_of_mem id hm)
            · exact .inr (hnot r hm)
          · exact .inr fun h => hm (List.mem_append_left _ h)

/-- No id is followed twice where no reference stands twice. -/
theorem queue_nodup (defs : Definitions) (chain : List String) {a : Note}
    (h : a.partials.Nodup) : (queue defs chain a).Nodup :=
  (queueFrom_nodup defs a.kind chain a.partials a.partials h fun _ hid => hid).1

theorem queue_of_partials_nil (defs : Definitions) (chain : List String) {a : Note}
    (h : a.partials = []) : queue defs chain a = [] := by
  unfold queue
  rw [h, queueFrom]

/-! ## 2. Custody -/

/-- **What is kept of the definitions during a run.** `Known` is what stays known of a definition
    that was found once, whatever becomes of it later. -/
structure Custody (strict : Prop) where
  Holds : Definitions → Prop
  Known : String → Note → Prop
  known : ∀ {defs id d}, Holds defs → defs.find? id = some d → Known id d
  orderly : ∀ {id d}, Known id d → d.Throughout (Note.Orderly strict)
  /-- A list grows by that of another definition of the kind, or by nothing. -/
  extended : ∀ {defs id origin d e f xs ys}, Holds defs → Known origin e → Known id d →
    e.kind = d.kind → f ∈ d.kind.fields → f ∉ d.kind.nestFields → e.get f = .list xs →
    d.get f = .list ys → (origin = id → ys = []) → Holds (defs.extend origin f ys)

/-- A definition of the kind has a list in the field. -/
def Custody.Lends {strict : Prop} (C : Custody strict) (k : Kind) (f : Field) (origin : String) :
    Prop := ∃ e xs, C.Known origin e ∧ e.kind = k ∧ e.get f = .list xs

/-- **An annotation while its references are followed**: well formed, ready below, and every list
    that it has in common with a definition comes from an id that was followed. -/
structure UnderWay {strict : Prop} (C : Custody strict) (k : Kind) (done : List String) (a : Note) :
    Prop where
  kind_eq : a.kind = k
  nested : a.Nested
  below : ∀ b ∈ a.children, b.Throughout (Note.Ready strict)
  adopted : ∀ {f origin g}, a.get f = .shared origin g → g = f ∧ origin ∈ done ∧ C.Lends k f origin

variable {strict : Prop} {C : Custody strict} {k : Kind} {done : List String}

theorem Custody.ready_below {id : String} {d b : Note} (hd : C.Known id d) (hb : b ∈ d.children) :
    b.Throughout (Note.Ready strict) :=
  ((C.orderly hd).child hb).mono fun _ h => h.ready

/-- A copy of a definition is ready to be expanded. -/
theorem Custody.ready_copy {id : String} {d : Note} (hd : C.Known id d) :
    d.asCopy.Throughout (Note.Ready strict) := by
  have horderly := (C.orderly hd).root
  have hnested : d.asCopy.Nested := horderly.toNested.congr rfl rfl
  refine .intro ⟨hnested, .inr ⟨⟨hnested, horderly.unshared⟩, horderly.partials_nodup⟩⟩ ?_
  exact fun b hb => Custody.ready_below hd hb

theorem UnderWay.mono {a : Note} {done' : List String} (h : UnderWay C k done a)
    (hsub : ∀ id ∈ done, id ∈ done') : UnderWay C k done' a where
  kind_eq := h.kind_eq
  nested := h.nested
  below := h.below
  adopted hget := by
    obtain ⟨hg, ho, hl⟩ := h.adopted hget
    exact ⟨hg, hsub _ ho, hl⟩

/-- Changing a field keeps an annotation under way if the new value is one that may stand
    there. -/
theorem UnderWay.set {a : Note} (h : UnderWay C k done a) {f : Field} {v : Value}
    (hf : f ∈ k.fields) (hl : f.alwaysList = true → ∃ vs, v = .list vs)
    (hn : f ∈ k.nestFields → v.Nests f.shape ∧ ∀ b ∈ v.notes, b.Throughout (Note.Ready strict))
    (hs : ∀ origin g, v = .shared origin g → g = f ∧ origin ∈ done ∧ C.Lends k f origin) :
    UnderWay C k done (a.set f v) where
  kind_eq := h.kind_eq
  nested := h.nested.set hl fun hm => (hn (h.kind_eq ▸ hm)).1
  below b hb := by
    rcases Note.mem_children_set h.nested hb with ⟨hm, hv⟩ | hb
    · exact (hn (h.kind_eq ▸ hm)).2 b hv
    · exact h.below b hb
  adopted {g origin e} hget := by
    by_cases hgf : g = f
    · subst hgf
      rw [Note.get_set_self v (h.nested.slotted.mem (h.kind_eq ▸ hf))] at hget
      exact hs origin e hget
    · rw [Note.get_set_of_ne a v hgf] at hget
      exact h.adopted hget

/-! ## 3. Merging -/

/-- What merging one field leaves behind. -/
structure FieldMerged (C : Custody strict) (k : Kind) (done : List String) (a : Note) (f : Field)
    (x : Note × Definitions) : Prop where
  underWay : UnderWay C k done x.1
  others : ∀ g, g ≠ f → x.1.get g = a.get g
  holds : C.Holds x.2

/-- Changing the field in a permitted way is one way of merging it. -/
theorem UnderWay.merged {a : Note} {defs : Definitions} (h : UnderWay C k done a)
    (hI : C.Holds defs) {f : Field} {v : Value} (hf : f ∈ k.fields)
    (hl : f.alwaysList = true → ∃ vs, v = .list vs)
    (hn : f ∈ k.nestFields → v.Nests f.shape ∧ ∀ b ∈ v.notes, b.Throughout (Note.Ready strict))
    (hs : ∀ origin g, v = .shared origin g → g = f ∧ origin ∈ done ∧ C.Lends k f origin) :
    FieldMerged C k done a f (a.set f v, defs) where
  underWay := h.set hf hl hn hs
  others _ hg := Note.get_set_of_ne a v hg
  holds := hI

theorem Value.Nests.append {shape : Shape} {xs ys : List Value} (hx : (Value.list xs).Nests shape)
    (hy : (Value.list ys).Nests shape) : (Value.list (xs ++ ys)).Nests shape := by
  unfold Value.Nests at hx hy ⊢
  split at hx
  · obtain ⟨_, ⟨⟩, hxs⟩ := hx
    obtain ⟨_, ⟨⟩, hys⟩ := hy
    refine ⟨_, rfl, fun w hw => ?_⟩
    rcases List.mem_append.mp hw with hw | hw
    · exact hxs w hw
    · exact hys w hw
  · exact absurd hx Value.not_nests_list
  · trivial

/-- **Merging one field.** A list that the annotation has from a definition comes from another one,
    if no id is followed twice, and is not extended by itself. -/
theorem mergeField_meets {id : String} {d a : Note} {defs : Definitions} {f : Field}
    (hd : C.Known id d) (hk : d.kind = k) (ha : UnderWay C k (id :: done) a) (hI : C.Holds defs)
    (hf : f ∈ k.fields) (hfirst : ∀ origin g, a.get f = .shared origin g → origin ∈ done)
    (hnew : strict → id ∉ done) :
    Meets strict (FieldMerged C k (id :: done) a f) (mergeField id d a defs f) := by
  have hdn := (C.orderly hd).root.toNested
  have hak : d.kind = a.kind := hk.trans ha.kind_eq.symm
  have hfilled : f.alwaysList = true → a.get f ≠ .null :=
    ha.nested.slotted.get_ne_null (ha.kind_eq ▸ hf)
  have hunchanged : FieldMerged C k (id :: done) a f (a, defs) := ⟨ha, fun _ _ => rfl, hI⟩
  unfold mergeField
  split
  -- two lists: the definition's items go to the end of the annotation's own list
  · rename_i xs ys hx hy
    refine ha.merged hI hf (fun _ => ⟨_, rfl⟩) (fun hm => ?_) fun _ _ h => nomatch h
    have hxn := ha.nested.nests f (ha.kind_eq ▸ hm)
    have hyn := hdn.nests f (hk ▸ hm)
    rw [hx] at hxn
    rw [hy] at hyn
    refine ⟨hxn.append hyn, fun b hb => ?_⟩
    rcases List.mem_append.mp (Value.mem_notes_list.mp hb) with hb | hb
    · exact ha.below b (Note.mem_children_of_list (ha.kind_eq ▸ hm) hx hb)
    · exact Custody.ready_below hd (Note.mem_children_of_list (hk ▸ hm) hy hb)
  -- the annotation's list is that of an earlier definition, which grows
  · rename_i origin g ys hx hy
    obtain ⟨rfl, -, e, xs, he, hek, hxs⟩ := ha.adopted hx
    split
    · rename_i hself
      simp only [Bool.and_eq_true, decide_eq_true_eq] at hself
      intro hstrict
      exact hnew hstrict (hself.1.1 ▸ hfirst origin g hx)
    · rename_i hself
      refine ⟨ha, fun _ _ => rfl, C.extended hI he hd (hek.trans hk.symm) (hk ▸ hf) ?_ hxs hy ?_⟩
      · rw [hak]
        exact ha.nested.not_mem_of_shared hx
      · intro ho
        simpa [ho] using hself
  -- the definition lends its list
  · rename_i ys hx hy
    have hm : f ∉ k.nestFields := ha.kind_eq ▸ ha.nested.not_mem_of_list hdn hak hx hy
    refine ha.merged hI hf (fun hl => absurd hx (hfilled hl)) (fun h => absurd h hm) ?_
    intro origin g h
    cases h
    exact ⟨rfl, List.mem_cons_self, d, ys, hd, hk, hy⟩
  · rename_i v hx hnot
    refine ha.merged hI hf (fun hl => absurd hx (hfilled hl)) (fun hm => ?_) fun origin g h => ?_
    · refine ⟨hdn.nests f (hk ▸ hm), fun b hb => ?_⟩
      exact Custody.ready_below hd (Note.mem_children.mpr ⟨f, hk ▸ hm, hb⟩)
    · exact absurd h ((C.orderly hd).root.unshared f origin g)
  · exact hunchanged

/-- Merging fields one after another: those still to come have nothing from the definition yet. -/
theorem mergeFields_meets {id : String} {d : Note} (hd : C.Known id d) (hk : d.kind = k)
    (hnew : strict → id ∉ done) (fields : List Field) (hsub : ∀ f ∈ fields, f ∈ k.fields)
    (hnodup : fields.Nodup) (a : Note) (defs : Definitions) (ha : UnderWay C k (id :: done) a)
    (hI : C.Holds defs)
    (hfirst : ∀ f ∈ fields, ∀ origin g, a.get f = .shared origin g → origin ∈ done) :
    Meets strict (fun x => UnderWay C k (id :: done) x.1 ∧ C.Holds x.2)
      (mergeFields id d a defs fields) := by
  induction fields generalizing a defs with
  | nil => exact ⟨ha, hI⟩
  | cons f fields ih =>
      obtain ⟨hnot, hrest⟩ := List.nodup_cons.mp hnodup
      have hstep := mergeField_meets hd hk ha hI (hsub f List.mem_cons_self)
        (hfirst f List.mem_cons_self) hnew
      unfold mergeFields
      cases hx : mergeField id d a defs f with
      | error e =>
          rw [hx] at hstep
          exact hstep
      | ok x =>
          rw [hx] at hstep
          refine ih (fun g hg => hsub g (List.mem_cons_of_mem f hg)) hrest x.1 x.2 hstep.underWay
            hstep.holds fun g hg origin e hget => ?_
          have hgf : g ≠ f := fun h => hnot (h ▸ hg)
          rw [hstep.others g hgf] at hget
          exact hfirst g (List.mem_cons_of_mem f hg) origin e hget

theorem merge_meets {id : String} {d a : Note} {defs : Definitions} (hd : C.Known id d)
    (hk : d.kind = k) (ha : UnderWay C k done a) (hI : C.Holds defs) (hnew : strict → id ∉ done) :
    Meets strict (fun x => UnderWay C k (id :: done) x.1 ∧ C.Holds x.2) (merge id d a defs) := by
  have ha' : UnderWay C k (id :: done) a := ha.mono fun _ h => List.mem_cons_of_mem id h
  unfold merge
  rw [ha.kind_eq]
  exact mergeFields_meets hd hk hnew k.fields (fun _ h => h) k.fields_nodup a defs ha' hI
    fun _ _ _ _ hget => (ha.adopted hget).2.1

/-! ## 4. Following references -/

/-- What the expander of the annotations below does, whatever they descend from. -/
def Serves (C : Custody strict) (k : Kind) (inner : Expander) : Prop :=
  ∀ chain, Descends strict C.Holds (·.Throughout (Note.Ready strict)) (·.Throughout Note.Settled) k
    inner chain

/-- An annotation inserted where its kind belongs. -/
theorem UnderWay.insert {a b : Note} (h : UnderWay C k done a)
    (hb : b.Throughout (Note.Ready strict)) (hg : b.kind.isGroup = false) {f : Field}
    (hf : k.nestField? b.kind = some f) : UnderWay C k done (a.insert f b) := by
  obtain ⟨hmem, hfields⟩ := Kind.nestField?_mem hf
  have hshape := Kind.shape_of_nestField? hg hf
  unfold Note.insert
  cases hl : f.alwaysList with
  | true =>
      obtain ⟨vs, hvs⟩ := h.nested.slotted.lists f (h.kind_eq ▸ hfields) hl
      have hn := h.nested.nests f (h.kind_eq ▸ hmem)
      rw [if_pos rfl, Note.push, hvs]
      rw [hvs] at hn
      refine h.set hfields (fun _ => ⟨_, rfl⟩) (fun _ => ⟨hn.append ?_, fun c hc => ?_⟩)
        fun _ _ h => nomatch h
      · rw [hl] at hshape
        rcases hshape with hs | ⟨-, hs⟩
        · rw [hs, if_pos rfl]
          exact ⟨_, rfl, fun w hw => ⟨b, List.mem_singleton.mp hw, rfl⟩⟩
        · rw [hs]
          trivial
      · rcases List.mem_append.mp (Value.mem_notes_list.mp hc) with hc | hc
        · exact h.below c (Note.mem_children_of_list (h.kind_eq ▸ hmem) hvs hc)
        · cases List.mem_singleton.mp hc
          exact hb
  | false =>
      rw [if_neg Bool.false_ne_true]
      refine h.set hfields (fun hl' => ?_) (fun _ => ⟨?_, fun c hc => ?_⟩) fun _ _ h => nomatch h
      · rw [hl] at hl'
        cases hl'
      · rw [hl] at hshape
        rcases hshape with hs | ⟨hl', -⟩
        · rw [hs, if_neg Bool.false_ne_true]
          exact .inr ⟨b, rfl, rfl⟩
        · cases hl'
      · cases Value.mem_notes_note.mp hc
        exact hb

/-- **Following one id**: nothing happens, the definition is merged, or a copy of it is expanded and
    inserted. -/
theorem followId_meets {inner : Expander} (hinner : Serves C k inner)
    (hk : strict → k.isGroup = false) (location : String) (chain : List String) {a : Note}
    {defs : Definitions} {id : String} (ha : UnderWay C k done a) (hI : C.Holds defs)
    (hnew : strict → id ∉ done) :
    Meets strict (fun x => UnderWay C k (id :: done) x.result ∧ C.Holds x.definitions)
      (followId inner location chain a defs id) := by
  have ha' : UnderWay C k (id :: done) a := ha.mono fun _ h => List.mem_cons_of_mem id h
  unfold followId
  split
  · exact ⟨ha', hI⟩
  · rename_i d hd
    have hknown := C.known hI hd
    split
    · exact ⟨ha', hI⟩
    · split
      · rename_i hdk
        have hmerge := merge_meets hknown (hdk.trans ha.kind_eq) ha hI hnew
        cases hx : merge id d a defs with
        | error e =>
            rw [hx] at hmerge
            exact hmerge
        | ok x =>
            rw [hx] at hmerge
            exact hmerge
      · split
        · rename_i f hf
          split
          · exact ⟨ha', hI⟩
          · rename_i hgroup
            have hgroup : d.kind.isGroup = false := Bool.eq_false_iff.mpr hgroup
            rw [ha.kind_eq] at hf
            have hasked : Asked strict k d.asCopy := fun hstrict =>
              ⟨hgroup, Kind.rank_lt_of_nestField? (hk hstrict) hgroup hf⟩
            have hrun := hinner (chain ++ [id]) defs d.asCopy hI (Custody.ready_copy hknown) hasked
            cases hx : inner (chain ++ [id]) defs d.asCopy with
            | error e =>
                rw [hx] at hrun
                exact hrun
            | ok x =>
                rw [hx] at hrun
                obtain ⟨hxk, hxs, hxI⟩ := hrun
                have hxk : x.result.kind = d.kind := hxk
                refine ⟨ha'.insert (hxs.mono fun _ h => h.ready) ?_ ?_, hxI⟩
                · rw [hxk]
                  exact hgroup
                · rw [hxk]
                  exact hf
        · exact ⟨ha', hI⟩

/-- Following ids one after another. -/
theorem followIds_meets {inner : Expander} (hinner : Serves C k inner)
    (hk : strict → k.isGroup = false) (location : String) (chain ids : List String) (a : Note)
    (defs : Definitions) (ha : UnderWay C k done a) (hI : C.Holds defs)
    (hnodup : strict → ids.Nodup ∧ ∀ id ∈ ids, id ∉ done) :
    Meets strict (fun x => (∃ done', UnderWay C k done' x.result) ∧ C.Holds x.definitions)
      (followIds inner location chain a defs ids) := by
  induction ids generalizing a defs done with
  | nil => exact ⟨⟨done, ha⟩, hI⟩
  | cons id ids ih =>
      have hstep := followId_meets hinner hk location chain ha hI
        fun hs => (hnodup hs).2 id List.mem_cons_self
      unfold followIds
      cases hx : followId inner location chain a defs id with
      | error e =>
          rw [hx] at hstep
          exact hstep
      | ok x =>
          rw [hx] at hstep
          have hrest := ih x.result x.definitions hstep.1 hstep.2 fun hs => by
            obtain ⟨hn, hnot⟩ := hnodup hs
            obtain ⟨hid, hn⟩ := List.nodup_cons.mp hn
            refine ⟨hn, fun r hr hdone => ?_⟩
            rcases List.mem_cons.mp hdone with rfl | hdone
            · exact hid hr
            · exact hnot r (List.mem_cons_of_mem id hr) hdone
          dsimp only
          cases hy : followIds inner location chain x.result x.definitions ids with
          | error e =>
              rw [hy] at hrest
              exact hrest
          | ok y =>
              rw [hy] at hrest
              exact hrest

/-! ## 5. A whole run -/

/-- The references of an annotation that is ready, followed. -/
theorem followQueue_meets {inner : Expander} {a : Note} {defs : Definitions}
    (hinner : Serves C a.kind inner) (hk : strict → a.kind.isGroup = false)
    (location : String) (chain : List String) (ha : a.Throughout (Note.Ready strict))
    (hI : C.Holds defs) :
    Meets strict (fun x => x.result.kind = a.kind ∧ x.result.Nested ∧
        (∀ b ∈ x.result.children, b.Throughout (Note.Ready strict)) ∧ C.Holds x.definitions)
      (followIds inner location chain a defs (queue defs chain a)) := by
  rcases ha.root.orderly with hnil | horderly
  · rw [queue_of_partials_nil defs chain hnil]
    exact ⟨rfl, ha.root.toNested, fun b hb => ha.child hb, hI⟩
  · have hstart : UnderWay C a.kind [] a := ⟨rfl, ha.root.toNested, fun b hb => ha.child hb,
      fun hget => absurd hget (horderly.unshared _ _ _)⟩
    have hrun := followIds_meets hinner hk location chain (queue defs chain a) a defs hstart hI
      fun hs => ⟨queue_nodup defs chain (horderly.partials_nodup hs), fun _ _ => List.not_mem_nil⟩
    cases hx : followIds inner location chain a defs (queue defs chain a) with
    | error e =>
        rw [hx] at hrun
        exact hrun
    | ok x =>
        rw [hx] at hrun
        obtain ⟨⟨done', hway⟩, hxI⟩ := hrun
        exact ⟨hway.kind_eq, hway.nested, hway.below, hxI⟩

/-- **What a run does**: an annotation that is ready becomes one that is settled throughout, and the
    custody of the definitions is kept. A strict run does not fail. -/
theorem expandTo_meets (C : Custody strict) (location : String) (depth : Nat)
    (chain : List String) (defs : Definitions) (a : Note) (hI : C.Holds defs)
    (ha : a.Throughout (Note.Ready strict))
    (hk : strict → a.kind.isGroup = false ∧ a.kind.rank < depth) :
    Meets strict (fun x => x.result.kind = a.kind ∧ x.result.Throughout Note.Settled ∧
      C.Holds x.definitions) (expandTo location depth chain defs a) := by
  induction depth generalizing chain defs a with
  | zero => exact fun hs => absurd (hk hs).2 (Nat.not_lt_zero _)
  | succ depth ih =>
      have hinner : Serves C a.kind (expandTo location depth) :=
        fun chain defs b hI hb hasked => ih chain defs b hI hb fun hs =>
          ⟨(hasked hs).1, Nat.lt_of_lt_of_le (hasked hs).2 (Nat.lt_succ_iff.mp (hk hs).2)⟩
      have hgroup : strict → a.kind.isGroup = false := fun hs => (hk hs).1
      have hfollow := followQueue_meets hinner hgroup location chain ha hI
      unfold expandTo
      dsimp only
      cases hx : followIds (expandTo location depth) location chain a defs
          (queue defs chain a) with
      | error e =>
          rw [hx] at hfollow
          exact hfollow
      | ok x =>
          rw [hx] at hfollow
          obtain ⟨hxk, hxn, hxb, hxI⟩ := hfollow
          dsimp only
          have hbare : Descending (·.Throughout (Note.Ready strict)) (·.Throughout Note.Settled)
              a.kind a.kind.nestFields { x.result with partials := [] } := by
            refine ⟨hxk, ⟨hxn.congr rfl rfl, rfl⟩, fun f hf b hb => ?_, fun f hf hnot => ?_⟩
            · exact hxb b (Note.mem_children.mpr ⟨f, hxk ▸ hf, hb⟩)
            · exact absurd hf hnot
          have hdown := expandFields_meets (hinner chain) hgroup a.kind.nestFields (fun _ h => h)
            a.kind.nestFields_nodup _ x.definitions hbare hxI
          cases hy : expandFields (expandTo location depth) chain
              { x.result with partials := [] } x.definitions a.kind.nestFields with
          | error e =>
              rw [hy] at hdown
              exact hdown
          | ok y =>
              rw [hy] at hdown
              obtain ⟨hy, hyI⟩ := hdown
              exact ⟨hy.kind_eq, .intro hy.settled fun b hb => hy.of_mem_children hb, hyI⟩

/-! ## 6. Definitions stay in order -/

/-- Every definition is as it was written, and of the kind that it was. -/
def orderlyCustody (strict : Prop) (kinds : String → Option Kind) : Custody strict where
  Holds defs := (∀ id d, defs.find? id = some d → d.Throughout (Note.Orderly strict)) ∧
    ∀ id, (defs.find? id).map (·.kind) = kinds id
  Known _ d := d.Throughout (Note.Orderly strict)
  known h hd := h.1 _ _ hd
  orderly h := h
  extended {defs id origin d e f xs ys} hI _ _ _ hf hm _ _ _ := by
    refine ⟨fun r c hc => ?_, fun r => ?_⟩
    · rw [Definitions.find?_extend] at hc
      obtain ⟨b, hb, rfl⟩ := Option.map_eq_some_iff.mp hc
      split
      · refine (hI.1 r b hb).set_list _ fun hm' => hm ?_
        have hnests := (Kind.mem_nestFields (Kind.nestFields_subset hm')).mp hm'
        exact (Kind.mem_nestFields hf).mpr hnests
      · exact hI.1 r b hb
    · rw [Definitions.find?_extend, Option.map_map, ← hI.2 r]
      congr 1
      funext b
      show (if r = origin then b.extend f ys else b).kind = b.kind
      split
      · rfl
      · rfl

end Marginalia
