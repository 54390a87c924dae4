import Marginalia.Proofs.Expansion.Below

/-!
# References that lead back to themselves

An id from which an annotation descends is not followed again, and a warning says that it refers to
itself. An annotation descends from the ids of the copies in which it stands, and from no others: an
id that was merged may be met again without a word. So the warning says something definite:

* `Visits`: the annotations that a run comes to, with the ids from which they descend. It is read
  off the definitions and the annotation as they are in the beginning;
* `Circles`: the run comes to an annotation that descends from an id and follows it;
* `LeadsBack`: the same, told by the copy of the definition through which the circle goes;
* `circular_warning_iff_leadsBack`: the warning about an id is there if and only if this is so.
-/

namespace Marginalia

/-! ## 1. Where a run comes to -/

/-- What a nest field of an annotation is composed of, without the copies that are put there. -/
def inherited (defs : Definitions) (chain : List String) (a : Note) (f : Field) : Value :=
  Value.compose (a.get f :: (queue defs chain a).map (lent defs chain a.kind f))

/-- **An annotation stands below another one** when the references of that one have been followed,
    and is no copy: it stood there before, or below a definition of the kind. -/
def Heir (defs : Definitions) (chain : List String) (a c : Note) : Prop :=
  ∃ f ∈ a.kind.nestFields, Vacant defs chain a f ∧ c ∈ (inherited defs chain a f).notes

/-- **Where a run comes to**: from an annotation to a copy of each definition that is inserted into
    it, which descends from the id of the definition, and to the annotations below. -/
inductive Visits (defs : Definitions) : List String → Note → List String → Note → Prop
  | here (chain : List String) (a : Note) : Visits defs chain a chain a
  | copy {chain chain' : List String} {a b d : Note} {id : String} {f : Field}
      (hid : id ∈ queue defs chain a) (hd : defs.find? id = some d)
      (hf : defs.Inserts chain a.kind id f) (rest : Visits defs (chain ++ [id]) d.asCopy chain' b) :
      Visits defs chain a chain' b
  | heir {chain chain' : List String} {a b c : Note} (hc : Heir defs chain a c)
      (rest : Visits defs chain c chain' b) : Visits defs chain a chain' b

/-- An id that is known is met again: by an annotation that descends from it and follows it. -/
def MetAgain (defs : Definitions) (chain : List String) (a : Note) (p : String) : Prop :=
  p ∈ chain ∧ p ∈ queue defs chain a ∧ (defs.find? p).isSome

/-- **An id leads back to itself** below an annotation. -/
def Circles (defs : Definitions) (chain : List String) (a : Note) (p : String) : Prop :=
  ∃ chain' b, Visits defs chain a chain' b ∧ MetAgain defs chain' b p

/-- **An id leads back to itself through a copy**: the run comes to an annotation into which a copy
    of its definition is inserted, and from the copy to one that follows the id. -/
def LeadsBack (defs : Definitions) (a : Note) (p : String) : Prop :=
  ∃ chain b d f chain' c, Visits defs [] a chain b ∧ p ∈ queue defs chain b ∧
    defs.find? p = some d ∧ defs.Inserts chain b.kind p f ∧
    Visits defs (chain ++ [p]) d.asCopy chain' c ∧ p ∈ queue defs chain' c

/-- A copy of the definition of an id is inserted, and another one leads back to itself below it. -/
def CirclesIn (defs : Definitions) (chain : List String) (k : Kind) (id p : String) : Prop :=
  ∃ d f, defs.find? id = some d ∧ defs.Inserts chain k id f ∧
    Circles defs (chain ++ [id]) d.asCopy p

section Circles

variable {defs : Definitions} {chain : List String} {a b : Note} {p : String}

/-- An id leads back to itself here, in a copy, or below. -/
theorem circles_iff :
    Circles defs chain a p ↔ MetAgain defs chain a p ∨
      (∃ id ∈ queue defs chain a, CirclesIn defs chain a.kind id p) ∨
      ∃ c, Heir defs chain a c ∧ Circles defs chain c p := by
  constructor
  · rintro ⟨chain', b, hvisits, hmet⟩
    cases hvisits with
    | here => exact .inl hmet
    | copy hid hd hf rest => exact .inr (.inl ⟨_, hid, _, _, hd, hf, chain', b, rest, hmet⟩)
    | heir hc rest => exact .inr (.inr ⟨_, hc, chain', b, rest, hmet⟩)
  · rintro (hmet | ⟨id, hid, d, f, hd, hf, chain', b, rest, hmet⟩ | ⟨c, hc, chain', b, rest, hmet⟩)
    · exact ⟨chain, a, .here chain a, hmet⟩
    · exact ⟨chain', b, .copy hid hd hf rest, hmet⟩
    · exact ⟨chain', b, .heir hc rest, hmet⟩

/-- Where a run comes to depends on the references and the nest fields. -/
theorem Circles.congr (h : Circles defs chain a p) (hk : b.kind = a.kind)
    (hrefs : b.partials = a.partials) (hnests : ∀ f ∈ a.kind.nestFields, b.get f = a.get f) :
    Circles defs chain b p := by
  have hqueue : queue defs chain b = queue defs chain a := by
    unfold queue
    rw [hk, hrefs]
  refine circles_iff.mpr ?_
  unfold MetAgain
  rw [hqueue, hk]
  refine (circles_iff.mp h).imp_right (Or.imp_right ?_)
  rintro ⟨c, ⟨f, hf, hvacant, hcf⟩, hcircles⟩
  refine ⟨c, ⟨f, hk ▸ hf, fun he id hid => ?_, ?_⟩, hcircles⟩
  · rw [hqueue] at hid
    rw [hk]
    exact hvacant he id hid
  · unfold inherited at hcf ⊢
    rw [hqueue, hk, hnests f hf]
    exact hcf

/-- Copies of definitions that are alike lead to the same. -/
theorem Note.Alike.circles_iff {d e : Note} (h : d.Alike e) :
    Circles defs chain e.asCopy p ↔ Circles defs chain d.asCopy p := by
  have hnests : ∀ f ∈ d.kind.nestFields, e.get f = d.get f := fun f hf =>
    h.nests f ((Kind.mem_nestFields (Kind.nestFields_subset hf)).mp hf)
  constructor
  · intro hcircles
    refine hcircles.congr h.kind_eq.symm h.partials_eq.symm fun f hf => (hnests f ?_).symm
    have hf : f ∈ e.kind.nestFields := hf
    rwa [h.kind_eq] at hf
  · exact fun hcircles => hcircles.congr h.kind_eq h.partials_eq hnests

/-- From where a run comes to it goes on. -/
theorem Visits.trans {chain' chain'' : List String} {c : Note} (h : Visits defs chain a chain' b)
    (h' : Visits defs chain' b chain'' c) : Visits defs chain a chain'' c := by
  induction h with
  | here chain a => exact h'
  | copy hid hd hf rest ih => exact .copy hid hd hf (ih h')
  | heir hc rest ih => exact .heir hc (ih h')

theorem Visits.descends {chain' : List String} (h : Visits defs chain a chain' b)
    (hp : p ∈ chain) : p ∈ chain' := by
  induction h with
  | here chain a => exact hp
  | copy hid hd hf rest ih => exact ih (List.mem_append_left _ hp)
  | heir hc rest ih => exact ih hp

/-- An annotation that descends from an id stands in a copy of its definition. -/
theorem Visits.inserted {chain' : List String} {c : Note} (h : Visits defs chain a chain' c)
    (hp : p ∈ chain') (hnot : p ∉ chain) :
    ∃ chain₁ b d f, Visits defs chain a chain₁ b ∧ p ∈ queue defs chain₁ b ∧
      defs.find? p = some d ∧ defs.Inserts chain₁ b.kind p f ∧
      Visits defs (chain₁ ++ [p]) d.asCopy chain' c := by
  induction h with
  | here chain a => exact absurd hp hnot
  | @copy chain chain' a c d id f hid hd hf rest ih =>
      by_cases hpid : p = id
      · subst hpid
        exact ⟨chain, a, d, f, .here chain a, hid, hd, hf, rest⟩
      · have hnot' : p ∉ chain ++ [id] := fun hm => (List.mem_append.mp hm).elim hnot fun hm =>
          hpid (List.mem_singleton.mp hm)
        obtain ⟨chain₁, b, d', g, hvisits, hrest⟩ := ih hp hnot'
        exact ⟨chain₁, b, d', g, .copy hid hd hf hvisits, hrest⟩
  | heir hc rest ih =>
      obtain ⟨chain₁, b, d, f, hvisits, hrest⟩ := ih hp hnot
      exact ⟨chain₁, b, d, f, .heir hc hvisits, hrest⟩

theorem circles_nil_iff : Circles defs [] a p ↔ LeadsBack defs a p := by
  constructor
  · rintro ⟨chain', c, hvisits, hp, hagain, -⟩
    obtain ⟨chain, b, d, f, hfirst, hid, hd, hf, hrest⟩ := hvisits.inserted hp List.not_mem_nil
    exact ⟨chain, b, d, f, chain', c, hfirst, hid, hd, hf, hrest, hagain⟩
  · rintro ⟨chain, b, d, f, chain', c, hfirst, hid, hd, hf, hrest, hagain⟩
    refine ⟨chain', c, hfirst.trans (.copy hid hd hf hrest), ?_, hagain, ?_⟩
    · exact hrest.descends (List.mem_append_right _ List.mem_cons_self)
    · rw [hd]
      rfl

/-- Below a settled annotation nothing is followed. -/
theorem not_circles_of_settled (h : a.Throughout Note.Settled) : ¬Circles defs chain a p := by
  induction h with
  | @intro a here below ih =>
      have hqueue := queue_of_partials_nil defs chain here.partials_nil
      intro hcircles
      rcases circles_iff.mp hcircles with ⟨-, hp, -⟩ | ⟨id, hid, -⟩ | ⟨c, ⟨f, hf, -, hc⟩, hbelow⟩
      · rw [hqueue] at hp
        cases hp
      · rw [hqueue] at hid
        cases hid
      · unfold inherited at hc
        rw [hqueue, List.map_nil, Value.compose_singleton] at hc
        exact ih c (Note.mem_children.mpr ⟨f, hf, hc⟩) hbelow

end Circles

/-! ## 2. What is said about a reference -/

/-- A row ends in a letter that another one does not end in. -/
theorem append_ne_append {s t : String} (front back : String)
    (h : s.toList.getLast? ≠ t.toList.getLast?) (hs : s.toList ≠ []) (ht : t.toList ≠ []) :
    front ++ s ≠ back ++ t := by
  intro heq
  have hlast := congrArg (fun u : String => u.toList.getLast?) heq
  simp only [String.toList_append] at hlast
  rw [List.getLast?_append_of_ne_nil _ hs, List.getLast?_append_of_ne_nil _ ht] at hlast
  exact h hlast

theorem circularMessage_ne_unknown (p id : String) : circularMessage p ≠ unknownIdMessage id :=
  append_ne_append _ _ (by decide) (by decide) (by decide)

theorem circularMessage_ne_notAllowed (p id : String) (inner outer : Kind) :
    circularMessage p ≠ notAllowedMessage id inner outer := by
  refine append_ne_append _ _ ?_ (by decide) ?_
  · cases outer <;> decide
  · cases outer <;> decide

theorem circularMessage_inj {p id : String} (h : circularMessage p = circularMessage id) :
    p = id := by
  unfold circularMessage at h
  have hlist := congrArg String.toList h
  simp only [String.toList_append, List.append_assoc] at hlist
  exact String.toList_inj.mp (List.append_cancel_right (List.append_cancel_left hlist))

/-- The warning that an id refers to itself. -/
def circularWarning (location p : String) : Diagnostic := ⟨.warning, circularMessage p, location⟩

theorem circularWarning_mem {location p message : String} :
    circularWarning location p ∈ warning message location ↔ circularMessage p = message := by
  unfold warning circularWarning
  rw [List.mem_singleton, Diagnostic.mk.injEq]
  exact ⟨fun h => h.2.1, fun h => ⟨rfl, h, rfl⟩⟩

section Says

variable {base : Definitions} {location : String} {inner : Expander} {chain : List String}
  {k : Kind} {done : List String} {a : Note} {defs : Definitions} {p : String}

/-- What is asked of the expander of the annotations below: that it warns of the ids that lead back
    to themselves, and of no others. -/
def TellsCircles (base : Definitions) (location p : String) (inner : Expander) : Prop :=
  ∀ {chain now b y}, (alikeCustody False base).Holds now → b.Throughout (Note.Ready False) →
    (b.Throughout fun c => c.partials.Nodup) → inner chain now b = .ok y →
      (circularWarning location p ∈ y.log ↔ Circles base chain b p)

/-- **One reference**: the warning is there if the id is the one and is met again, or if it is
    inserted and the other one leads back to itself in the copy. -/
theorem Followed.tells {id : String} {x : Expanded Note}
    (hbase : ∀ id d, base.find? id = some d → d.Throughout fun c => c.partials.Nodup)
    (hinner : TellsCircles base location p inner)
    (way : UnderWay (alikeCustody False base) k done a)
    (holds : (alikeCustody False base).Holds defs)
    (h : Followed inner location chain a defs id x) :
    circularWarning location p ∈ x.log ↔
      (p = id ∧ p ∈ chain ∧ (base.find? p).isSome) ∨ CirclesIn base chain k id p := by
  cases h with
  | unknown hn =>
      have hnone := holds.1.find?_eq_none hn
      rw [circularWarning_mem]
      refine ⟨fun h => absurd h (circularMessage_ne_unknown p id), ?_⟩
      rintro (⟨rfl, -, hsome⟩ | ⟨d, f, hd, -⟩)
      · rw [hnone] at hsome
        cases hsome
      · rw [hnone] at hd
        cases hd
  | @circular e he hc =>
      obtain ⟨d, hd, -⟩ := holds.1.find? he
      rw [circularWarning_mem]
      constructor
      · intro h
        obtain rfl := circularMessage_inj h
        refine .inl ⟨rfl, hc, ?_⟩
        rw [hd]
        rfl
      · rintro (⟨rfl, -⟩ | ⟨-, f, -, ⟨-, -, hnot, -⟩, -⟩)
        · rfl
        · exact absurd hc hnot
  | @merged e m he hc hek hm =>
      obtain ⟨d, hd, hde⟩ := holds.1.find? he
      refine ⟨fun h => (nomatch h), ?_⟩
      rintro (⟨rfl, hp, -⟩ | ⟨-, f, -, ⟨d', hd', -, hne, -⟩, -⟩)
      · exact absurd hp hc
      · rw [hd] at hd'
        cases hd'
        exact absurd (hde.kind_eq.symm.trans (hek.trans way.kind_eq)) hne
  | @inserted e f y he hc hek hf hg hy =>
      obtain ⟨d, hd, hde⟩ := holds.1.find? he
      have hready := Custody.ready_copy ((alikeCustody False base).known holds he)
      have hnodup : e.asCopy.Throughout fun c => c.partials.Nodup := by
        have hroot := (hbase id d hd).root
        refine .intro (hde.partials_eq ▸ hroot) fun c hc => (hbase id d hd).child ?_
        exact hde.children_eq ▸ hc
      have hinserts : base.Inserts chain k id f := by
        rw [hde.kind_eq, way.kind_eq] at hek hf
        exact ⟨d, hd, hc, hek, hde.kind_eq ▸ hg, hf⟩
      rw [hinner holds hready hnodup hy, hde.circles_iff]
      constructor
      · exact fun h => .inr ⟨d, f, hd, hinserts, h⟩
      · rintro (⟨rfl, hp, -⟩ | ⟨d', -, hd', -, h⟩)
        · exact absurd hp hc
        · rw [hd] at hd'
          cases hd'
          exact h
  | @refused e he hc hek hrefused =>
      obtain ⟨d, hd, hde⟩ := holds.1.find? he
      rw [circularWarning_mem]
      refine ⟨fun h => absurd h (circularMessage_ne_notAllowed p id _ _), ?_⟩
      rintro (⟨rfl, hp, -⟩ | ⟨-, f, -, ⟨d', hd', -, -, hg, hf⟩, -⟩)
      · exact absurd hp hc
      · rw [hd] at hd'
        cases hd'
        rw [← hde.kind_eq, ← way.kind_eq] at hf
        have hgroup := hrefused f hf
        rw [hde.kind_eq, hg] at hgroup
        cases hgroup

theorem Course.tells {ids : List String} {b : Note} {last : Definitions} {logs : List Log}
    (hbase : ∀ id d, base.find? id = some d → d.Throughout fun c => c.partials.Nodup)
    (hinner : TellsCircles base location p inner)
    (h : Course base inner location chain k done a defs ids b last logs) :
    circularWarning location p ∈ logs.flatten ↔
      (p ∈ chain ∧ p ∈ ids ∧ (base.find? p).isSome) ∨
        ∃ id ∈ ids, CirclesIn base chain k id p := by
  induction h with
  | nil way holds => simp
  | @cons done a defs id ids x b last logs way holds step rest ih =>
      rw [List.flatten_cons, List.mem_append, step.tells hbase hinner way holds, ih]
      simp only [List.mem_cons, exists_eq_or_imp]
      grind

end Says

/-! ## 3. What is said about the annotations below -/

theorem exists_congr_of_forall₂ {α β : Type} {R : α → β → Prop} {P : α → Prop} {Q : β → Prop}
    {xs : List α} {ys : List β} (h : List.Forall₂ R xs ys)
    (hR : ∀ {x y}, R x y → (P x ↔ Q y)) : (∃ x ∈ xs, P x) ↔ ∃ y ∈ ys, Q y := by
  induction h with
  | nil => simp
  | cons hfirst _ ih => rw [List.exists_mem_cons_iff, List.exists_mem_cons_iff, hR hfirst, ih]

/-- What an id gives to a list field, but for settled annotations, is what it lends. -/
theorem Contributes.notes_iff {defs : Definitions} {chain : List String} {k : Kind} {f : Field}
    {id : String} {v : Value} {Q : Note → Prop} (hQ : ∀ c : Note, c.Throughout Note.Settled → ¬Q c)
    (h : Contributes (fun _ c => c.Throughout Note.Settled) defs chain k f id v) :
    (∃ c, .note c ∈ (lent defs chain k f id).items ∧ Q c) ↔ ∃ c, .note c ∈ v.items ∧ Q c := by
  rcases h with ⟨⟨d, hd, -, hne, -⟩, c, hc, rfl⟩ | ⟨-, rfl⟩
  · have hnull : lent defs chain k f id = .null := by
      refine lent_eq_null (fun d' hd' hk => absurd hk ?_) f
      rw [hd] at hd'
      cases hd'
      exact hne
    rw [hnull]
    constructor
    · rintro ⟨e, he, -⟩
      cases he
    · rintro ⟨e, he, hQe⟩
      cases List.mem_singleton.mp he
      exact absurd hQe (hQ _ hc)
  · exact Iff.rfl

namespace Referenced

variable {base : Definitions} {chain : List String} {a b : Note} {Q : Note → Prop}

/-- A field whose place is vacant holds, but for settled annotations, what is inherited. -/
theorem inherited_iff (h : Referenced base chain a b) (ha : a.Slotted)
    (hQ : ∀ c : Note, c.Throughout Note.Settled → ¬Q c) {f : Field} (hf : f ∈ a.kind.nestFields)
    (hvacant : Vacant base chain a f) :
    (∃ c ∈ (inherited base chain a f).notes, Q c) ↔ ∃ c ∈ (b.get f).notes, Q c := by
  obtain ⟨vs, hvs, hget⟩ := h.composed f hf hvacant
  have hfields := Kind.nestFields_subset hf
  rw [hget]
  unfold inherited
  cases hl : f.alwaysList with
  | true =>
      obtain ⟨xs, hxs⟩ := ha.lists f hfields hl
      have hlist : ∀ ws, (∃ c ∈ (Value.compose (.list xs :: ws)).notes, Q c) ↔
          (∃ c, .note c ∈ xs ∧ Q c) ∨ ∃ w ∈ ws, ∃ c, .note c ∈ w.items ∧ Q c := by
        intro ws
        have hmem : ∀ c, c ∈ (Value.compose (.list xs :: ws)).notes ↔
            .note c ∈ xs ∨ ∃ w ∈ ws, .note c ∈ w.items := fun c => by
          rw [← List.mem_flatMap, ← List.mem_append]
          exact Value.mem_notes_list
        simp only [hmem]
        grind
      rw [hxs, hlist, hlist, ← exists_congr_of_forall₂ hvs fun hgives => hgives.notes_iff hQ]
      simp only [List.mem_map, exists_exists_and_eq_and]
  | false =>
      -- without a copy everything is lent
      have hitems := Field.eq_items_of_nests ((Kind.mem_nestFields hfields).mp hf) hl
      subst hitems
      have hlent : List.Forall₂ (fun id v => lent base chain a.kind .items id = v)
          (queue base chain a) vs := by
        refine List.forall₂_iff_zip.mpr ⟨hvs.length_eq, fun {id v} hmem => ?_⟩
        have hid := (List.of_mem_zip hmem).1
        rcases List.forall₂_zip hvs hmem with ⟨⟨d, hd, hc, -, -, hn⟩, -⟩ | ⟨-, hv⟩
        · have hkind := (Kind.items_of_nestField? hn rfl).1
          refine absurd ⟨?_, hc, hf⟩ (hvacant rfl id hid)
          rw [hd, Option.map_some, hkind]
        · exact hv.symm
      have hsame : (queue base chain a).map (lent base chain a.kind .items) = vs :=
        List.forall₂_eq_eq_eq ▸ List.forall₂_map_left_iff.mpr hlent
      rw [hsame]

/-- **What stands below, but for settled annotations, are the heirs.** -/
theorem heirs_iff (h : Referenced base chain a b) (ha : a.Slotted)
    (hQ : ∀ c : Note, c.Throughout Note.Settled → ¬Q c) :
    (∃ c ∈ b.children, Q c) ↔ ∃ c, Heir base chain a c ∧ Q c := by
  constructor
  · rintro ⟨c, hc, hQc⟩
    obtain ⟨f, hf, hcf⟩ := Note.mem_children.mp hc
    rw [h.kind_eq] at hf
    by_cases hvacant : Vacant base chain a f
    · obtain ⟨e, he, hQe⟩ := (h.inherited_iff ha hQ hf hvacant).mpr ⟨c, hcf, hQc⟩
      exact ⟨e, ⟨f, hf, hvacant, he⟩, hQe⟩
    · have hitems : f = .items :=
        Classical.byContradiction fun hne => hvacant fun he => absurd he hne
      subst hitems
      obtain ⟨e, hget, he⟩ := h.replaced hvacant
      rw [hget] at hcf
      rw [Value.mem_notes_note.mp hcf] at hQc
      exact absurd hQc (hQ e he)
  · rintro ⟨c, ⟨f, hf, hvacant, hc⟩, hQc⟩
    obtain ⟨e, he, hQe⟩ := (h.inherited_iff ha hQ hf hvacant).mp ⟨c, hc, hQc⟩
    exact ⟨e, Note.mem_children.mpr ⟨f, h.kind_eq ▸ hf, he⟩, hQe⟩

end Referenced

/-! ## 4. A whole run -/

/-- **A run warns of the ids that lead back to themselves**, and of no others. -/
theorem expandTo_tells {base : Definitions} {location p : String}
    (hbase : ∀ id d, base.find? id = some d → d.Throughout fun c => c.partials.Nodup)
    (depth : Nat) : TellsCircles base location p (expandTo location depth) := by
  induction depth with
  | zero =>
      intro chain now b y _ _ _ h
      cases h
  | succ depth ih =>
      intro chain defs a x hI ha hnodup h
      obtain ⟨y, z, hy, hz, rfl⟩ := expandTo_parts h
      have href := followQueue_referenced hI ha hnodup.root hy
      obtain ⟨logs, hcourse, -, -, hready, hnow, hlog⟩ := followQueue_course hI ha hy
      have hrefs : circularWarning location p ∈ y.log ↔ MetAgain base chain a p ∨
          ∃ id ∈ queue base chain a, CirclesIn base chain a.kind id p := by
        rw [hlog]
        rcases hcourse with ⟨hnil, -, -, rfl⟩ | hcourse
        · unfold MetAgain
          rw [queue_of_partials_nil base chain hnil]
          simp
        · exact hcourse.tells hbase ih
      have hbelow : circularWarning location p ∈ z.log ↔
          ∃ c ∈ y.result.children, Circles base chain c p := by
        have hchildren := href.below (fun c hc => by rw [hc.partials_nil]; exact List.nodup_nil)
          (fun c hc => hnodup.child hc) hbase
        obtain ⟨-, more, hmore, hflat⟩ := expandFields_logs
          (I := (alikeCustody False base).Holds)
          (P := fun c log => circularWarning location p ∈ log ↔ Circles base chain c p)
          a.kind.nestFields a.kind.nestFields_nodup (fun f hf c hc later x hlater hx => by
            have hchild : c ∈ y.result.children :=
              Note.mem_children.mpr ⟨f, href.kind_eq ▸ hf, hc⟩
            refine ⟨(expandTo_settles hlater (hready c hchild) hx).2.2, ?_⟩
            exact ih hlater (hready c hchild) (hchildren c hchild) hx) hnow hz
        rw [hflat, List.mem_flatten, ← exists_congr_of_forall₂ hmore fun h => h.symm]
        unfold Note.children
        rw [href.kind_eq]
        rfl
      rw [List.mem_append, hrefs, hbelow,
        href.heirs_iff ha.root.slotted fun c hc => not_circles_of_settled hc, or_assoc,
        ← circles_iff]

/-! ## 5. The main statement -/

/-- **The warning that an id refers to itself is there if and only if the id leads back to itself
    through a copy of its definition.** This holds for every annotation and all definitions without
    an annotation that refers to one id twice, and there is a result to speak of for every
    annotation that is no group. Definitions that are merged are no copies: a circle among these
    alone is closed without a word. -/
theorem circular_warning_iff_leadsBack (location : String) (defs : Definitions) (a : Note)
    (ha : a.Throughout fun b => b.Fresh ∧ b.partials.Nodup)
    (hdefs : ∀ id d, defs.find? id = some d → d.Throughout fun b => b.Fresh ∧ b.partials.Nodup) :
    (∀ x, expand location defs a = .ok x →
      ∀ p, circularWarning location p ∈ x.log ↔ LeadsBack defs a p) ∧
    (a.kind.isGroup = false → ∃ x, expand location defs a = .ok x) := by
  have horderly : ∀ {strict : Prop} {c : Note},
      (c.Throughout fun b => b.Fresh ∧ b.partials.Nodup) → c.Throughout (Note.Orderly strict) :=
    fun h => h.mono fun _ hb => ⟨hb.1, fun _ => hb.2⟩
  refine ⟨fun x hx p => ?_, fun hk => ?_⟩
  · have hbase : ∀ id d, defs.find? id = some d → d.Throughout fun c => c.partials.Nodup :=
      fun id d hd => (hdefs id d hd).mono fun _ h => h.2
    have hholds : (alikeCustody False defs).Holds defs :=
      alikeCustody_holds fun id d hd => horderly (hdefs id d hd)
    have hready : a.Throughout (Note.Ready False) := (horderly ha).mono fun _ h => h.ready
    have htells := expandTo_tells (p := p) hbase (expansionDepth defs a) hholds hready
      (ha.mono fun _ h => h.2) hx
    rw [htells, circles_nil_iff]
  · exact exists_expandTo location [] (fun id d hd => horderly (hdefs id d hd)) (horderly ha) hk
      (rank_lt_expansionDepth defs a)

/-- An API that refers to itself, and an operation that does. -/
def selfReferences : Definitions :=
  [("api", Note.referring .api ["api"]), ("operation", Note.referring .operation ["operation"])]

/-- A resource that refers to the API is warned, an operation that refers to the operation is
    not. -/
theorem circular_warning_of_selfReferences :
    (∃ x, expand "pets.php" selfReferences (Note.referring .resource ["api"]) = .ok x ∧
      circularWarning "pets.php" "api" ∈ x.log ∧
      LeadsBack selfReferences (Note.referring .resource ["api"]) "api") ∧
    ∃ x, expand "pets.php" selfReferences (Note.referring .operation ["operation"]) = .ok x ∧
      x.log = [] ∧
      ¬LeadsBack selfReferences (Note.referring .operation ["operation"]) "operation" := by
  have horderly : ∀ (k : Kind) (id : String),
      (Note.referring k [id]).Throughout fun b => b.Fresh ∧ b.partials.Nodup := by
    intro k id
    have h : (Note.referring k [id]).Throughout (Note.Orderly True) :=
      .referring k [id] fun _ => List.pairwise_singleton _ id
    exact h.mono fun _ hb => ⟨hb.toFresh, hb.partials_nodup trivial⟩
  have hdefs : ∀ id d, selfReferences.find? id = some d →
      d.Throughout fun b => b.Fresh ∧ b.partials.Nodup := by
    intro id d hd
    rcases List.mem_cons.mp (Definitions.mem_of_find? hd) with heq | hd
    · cases heq
      exact horderly .api "api"
    · cases List.mem_singleton.mp hd
      exact horderly .operation "operation"
  have hlogs : ((expand "pets.php" selfReferences
        (Note.referring .resource ["api"])).toOption.map (·.log)) =
        some (warning (circularMessage "api") "pets.php") ∧
      ((expand "pets.php" selfReferences
        (Note.referring .operation ["operation"])).toOption.map (·.log)) = some [] := by
    decide +kernel
  constructor
  · obtain ⟨hiff, hexists⟩ := circular_warning_iff_leadsBack "pets.php" selfReferences
      (Note.referring .resource ["api"]) (horderly .resource "api") hdefs
    obtain ⟨x, hx⟩ := hexists rfl
    have hlog := hlogs.1
    rw [hx] at hlog
    have hmem : circularWarning "pets.php" "api" ∈ x.log := by
      rw [show x.log = _ from Option.some.inj hlog]
      exact List.mem_singleton.mpr rfl
    exact ⟨x, hx, hmem, (hiff x hx "api").mp hmem⟩
  · obtain ⟨hiff, hexists⟩ := circular_warning_iff_leadsBack "pets.php" selfReferences
      (Note.referring .operation ["operation"]) (horderly .operation "operation") hdefs
    obtain ⟨x, hx⟩ := hexists rfl
    have hlog := hlogs.2
    rw [hx] at hlog
    have hnil : x.log = [] := Option.some.inj hlog
    refine ⟨x, hx, hnil, fun hback => ?_⟩
    have hmem := (hiff x hx "operation").mpr hback
    rw [hnil] at hmem
    cases hmem

end Marginalia
