import Marginalia.Proofs.Expansion.Commuting

/-!
# The order does not matter

Wherever an annotation is expanded, somebody may choose in which order its nest fields are visited
and in which order the fields of a definition are merged into it, and leave out of the latter those
in which the definition says nothing. Expansion comes to the same whatever is chosen:

* `Order`: what is chosen for one annotation; `Orders`: what is chosen for it and for all that is
  expanded on its account, each told by the way that leads there;
* `expandBy`: expansion with the orders chosen. With the usual ones it is expansion as it is
  (`expandBy_standard`);
* `followIdsBy_same`, `expandFieldsBy_same`: the two halves of a run, with orders chosen and
  without;
* `expandBy_same`: a whole run, by induction on the depth. What stands below has been looked after
  before it is reached: it is ready, and no id stands in it twice (`Note.Tidy`).
-/

namespace Marginalia

/-! ## 1. Orders -/

/-- **What is chosen for one annotation**: an order of its nest fields, and for each definition an
    order of the fields to merge, among them all in which the definition says something. -/
structure Order where
  nesting : Kind → List Field
  merging : String → Note → List Field
  nesting_perm : ∀ k, (nesting k).Perm k.nestFields
  merging_nodup : ∀ id d, (merging id d).Nodup
  merging_subset : ∀ id d, ∀ f ∈ merging id d, f ∈ d.kind.fields
  merging_said : ∀ id d, ∀ f ∈ d.kind.fields, d.get f ≠ f.default → f ∈ merging id d

/-- Fields in the order in which the kind has them. -/
def Order.standard : Order where
  nesting := Kind.nestFields
  merging _ d := d.kind.fields
  nesting_perm _ := .refl _
  merging_nodup _ d := d.kind.fields_nodup
  merging_subset _ _ _ hf := hf
  merging_said _ _ _ hf _ := hf

/-- A step from an annotation to one that is expanded on its account: the copy of a definition, or
    what stands at some place in a nest field. -/
inductive Way where
  | copy (id : String)
  | member (f : Field) (place : Nat)

/-- What is chosen for an annotation, and for all that is expanded on its account. -/
abbrev Orders := List Way → Order

/-- What is chosen further on. -/
def Orders.after (orders : Orders) (way : Way) : Orders := fun ways => orders (way :: ways)

/-! ## 2. Expansion with orders chosen -/

/-- Follows one id, and merges the given fields if the definition is to be merged. -/
def followIdBy (inner : Expander) (merging : Note → List Field) (location : String)
    (chain : List String) (a : Note) (defs : Definitions) (id : String) :
    Except Unexpandable (Expanded Note) :=
  match defs.find? id with
  | some d =>
    if d.kind = a.kind && !chain.contains id then
      (mergeFields id d a defs (merging d)).map fun m => ⟨m.1, m.2, []⟩
    else followId inner location chain a defs id
  | none => followId inner location chain a defs id

/-- Follows ids one after another, each with an expander of its own. -/
def followIdsBy (inner : String → Expander) (order : Order) (location : String)
    (chain : List String) :
    Note → Definitions → List String → Except Unexpandable (Expanded Note)
  | a, defs, [] => .ok ⟨a, defs, []⟩
  | a, defs, id :: ids =>
    andThen (followIdBy (inner id) (order.merging id) location chain a defs id)
      fun b now => followIdsBy inner order location chain b now ids

/-- Expands the members of a list from some place on, each with an expander of its own. -/
def expandItemsBy (inner : Nat → Expander) (chain : List String) :
    Nat → Definitions → List Value → Except Unexpandable (Expanded (List Value))
  | _, defs, [] => .ok ⟨[], defs, []⟩
  | place, defs, v :: vs =>
    match v with
    | .note b => andThen (inner place chain defs b) fun c now =>
        mapResult (.note c :: ·) (expandItemsBy inner chain (place + 1) now vs)
    | other => .error (.notANote other.typeName)

/-- Expands what a field holds. -/
def expandFieldBy (inner : Nat → Expander) (chain : List String) (a : Note) (defs : Definitions)
    (f : Field) : Except Unexpandable (Expanded Note) :=
  match a.get f with
  | .list vs => mapResult (fun ws => a.set f (.list ws)) (expandItemsBy inner chain 0 defs vs)
  | .note b => mapResult (fun c => a.set f (.note c)) (inner 0 chain defs b)
  | _ => .ok ⟨a, defs, []⟩

/-- Expands what fields hold, one after another. -/
def expandFieldsBy (inner : Field → Nat → Expander) (chain : List String) :
    Note → Definitions → List Field → Except Unexpandable (Expanded Note)
  | a, defs, [] => .ok ⟨a, defs, []⟩
  | a, defs, f :: fields =>
    andThen (expandFieldBy (inner f) chain a defs f)
      fun b now => expandFieldsBy inner chain b now fields

/-- **Expansion with orders chosen**, of an annotation that reaches no deeper than a depth. -/
def expandBy (location : String) : Nat → Orders → Expander
  | 0, _ => fun _ _ _ => .error .bottomless
  | depth + 1, orders => fun chain defs a =>
    andThen (followIdsBy (fun id => expandBy location depth (orders.after (.copy id))) (orders [])
        location chain a defs (queue defs chain a))
      fun b now => expandFieldsBy
        (fun f place => expandBy location depth (orders.after (.member f place))) chain
        { b with partials := [] } now ((orders []).nesting a.kind)

/-! ## 3. With the usual orders -/

section Standard

variable (inner : Expander) (location : String) (chain : List String) (a : Note)
  (defs : Definitions)

/-- Following an id of which the definition is to be merged. -/
theorem followId_of_kind {id : String} {d : Note} (hd : defs.find? id = some d)
    (hk : d.kind = a.kind) (hc : id ∉ chain) :
    followId inner location chain a defs id =
      (merge id d a defs).map fun m => ⟨m.1, m.2, []⟩ := by
  unfold followId
  rw [hd]
  dsimp only
  rw [if_neg fun h => hc (List.contains_iff_mem.mp h), if_pos hk]
  cases merge id d a defs with
  | error e => rfl
  | ok m => rfl

/-- Following an id, with some fields merged and with all of them: it is the same if merging them is
    the same. -/
theorem followIdBy_eq {merging : Note → List Field} {id : String}
    (h : ∀ d, defs.find? id = some d → d.kind = a.kind →
      mergeFields id d a defs (merging d) = merge id d a defs) :
    followIdBy inner merging location chain a defs id =
      followId inner location chain a defs id := by
  unfold followIdBy
  split
  · rename_i d hd
    split
    · rename_i hboth
      simp only [Bool.and_eq_true, decide_eq_true_eq, Bool.not_eq_true', List.contains_eq_mem,
        decide_eq_false_iff_not] at hboth
      rw [followId_of_kind inner location chain a defs hd hboth.1 hboth.2, h d hd hboth.1]
    · rfl
  · rfl

theorem followIdsBy_standard (ids : List String) :
    followIdsBy (fun _ => inner) .standard location chain a defs ids =
      followIds inner location chain a defs ids := by
  induction ids generalizing a defs with
  | nil => rfl
  | cons id ids ih =>
      have hstep : followIdBy inner (Order.standard.merging id) location chain a defs id =
          followId inner location chain a defs id := by
        refine followIdBy_eq inner location chain a defs fun d _ hk => ?_
        unfold merge
        rw [← hk]
        rfl
      rw [followIdsBy, followIds_cons_eq, hstep]
      congr 1
      funext b now
      exact ih b now

theorem expandItemsBy_const (place : Nat) (vs : List Value) :
    expandItemsBy (fun _ => inner) chain place defs vs = expandItems inner chain defs vs := by
  induction vs generalizing place defs with
  | nil => rfl
  | cons v vs ih =>
      cases v with
      | note b =>
          rw [expandItemsBy, expandItems_cons_eq]
          congr 1
          funext c now
          rw [ih]
      | _ => rfl

theorem expandFieldBy_const (f : Field) :
    expandFieldBy (fun _ => inner) chain a defs f = expandField inner chain a defs f := by
  unfold expandFieldBy expandField
  cases a.get f with
  | list vs =>
      dsimp only
      rw [expandItemsBy_const]
      cases expandItems inner chain defs vs with
      | error e => rfl
      | ok x => rfl
  | note b =>
      dsimp only
      cases inner chain defs b with
      | error e => rfl
      | ok x => rfl
  | _ => rfl

theorem expandFieldsBy_const (fields : List Field) :
    expandFieldsBy (fun _ _ => inner) chain a defs fields =
      expandFields inner chain a defs fields := by
  induction fields generalizing a defs with
  | nil => rfl
  | cons f fields ih =>
      rw [expandFieldsBy, expandFields_cons_eq, expandFieldBy_const]
      congr 1
      funext b now
      exact ih b now

end Standard

/-- **With the usual orders it is expansion as it is.** -/
theorem expandBy_standard (location : String) (depth : Nat) :
    expandBy location depth (fun _ => .standard) = expandTo location depth := by
  induction depth with
  | zero => rfl
  | succ depth ih =>
      have hafter : ∀ way, Orders.after (fun _ => .standard) way = fun _ => .standard :=
        fun _ => rfl
      funext chain defs a
      rw [expandBy, expandTo_succ_eq]
      simp only [hafter, ih]
      rw [followIdsBy_standard]
      congr 1
      funext b now
      exact expandFieldsBy_const _ chain _ now a.kind.nestFields

/-! ## 4. The references -/

section Follow

variable {base defs : Definitions} {inner : Expander} {location : String} {chain : List String}
  {k : Kind} {done : List String} {a : Note}

theorem UnderWay.adopts {strict : Prop} {C : Custody strict} (h : UnderWay C k done a) {id : String}
    (hnew : id ∉ done) : Adopts id a a.kind.fields := fun f _ origin g hget => by
  obtain ⟨hg, ho, -⟩ := h.adopted hget
  exact ⟨hg, fun e => hnew (e ▸ ho)⟩

/-- An expander makes the same of the copies of definitions as another one, at any time. -/
def SameCopies (base : Definitions) (chain : List String) (innerBy inner : Expander)
    (id : String) : Prop :=
  ∀ {now d}, (alikeCustody False base).Holds now → now.find? id = some d →
    SameOutcome (innerBy (chain ++ [id]) now d.asCopy) (inner (chain ++ [id]) now d.asCopy)

/-- Expanders that make the same of copies, following one id. -/
theorem followId_same {innerBy : Expander} {id : String}
    (hI : (alikeCustody False base).Holds defs) (hcopies : SameCopies base chain innerBy inner id) :
    SameOutcome (followId innerBy location chain a defs id)
      (followId inner location chain a defs id) := by
  unfold followId
  split
  · exact .refl _
  · rename_i d hd
    split
    · exact .refl _
    · split
      · exact .refl _
      · split
        · rename_i f hf
          split
          · exact .refl _
          · have hinserted : SameOutcome
                (mapResult (a.insert f) (innerBy (chain ++ [id]) defs d.asCopy))
                (mapResult (a.insert f) (inner (chain ++ [id]) defs d.asCopy)) :=
              (hcopies hI hd).mapResult
            revert hinserted
            cases innerBy (chain ++ [id]) defs d.asCopy <;>
              cases inner (chain ++ [id]) defs d.asCopy <;> exact fun h => h
        · exact .refl _

/-- **Following ids comes to the same**, whatever the order in which fields are merged. -/
theorem followIdsBy_same {innerBy : String → Expander} (order : Order) {ids : List String}
    (hinner : Serves (alikeCustody False base) k inner)
    (hcopies : ∀ id ∈ ids, SameCopies base chain (innerBy id) inner id)
    (way : UnderWay (alikeCustody False base) k done a)
    (hI : (alikeCustody False base).Holds defs) (hnodup : ids.Nodup)
    (hnew : ∀ id ∈ ids, id ∉ done) :
    SameOutcome (followIdsBy innerBy order location chain a defs ids)
      (followIds inner location chain a defs ids) := by
  induction ids generalizing done a defs with
  | nil => exact .refl _
  | cons id ids ih =>
      obtain ⟨hid, hrest⟩ := List.nodup_cons.mp hnodup
      -- no list of the annotation is one of this definition yet, as the id is new
      have hmerged : followIdBy (innerBy id) (order.merging id) location chain a defs id =
          followId (innerBy id) location chain a defs id := by
        refine followIdBy_eq _ location chain a defs fun d _ hk => ?_
        refine mergeFields_eq_of_said defs (order.merging_nodup id d) ?_ ?_ way.nested.slotted
          (way.adopts (hnew id List.mem_cons_self))
        · exact fun f hf => hk ▸ order.merging_subset id d f hf
        · exact fun f hf => order.merging_said id d f (hk ▸ hf)
      rw [followIdsBy, followIds_cons_eq, hmerged]
      refine SameOutcome.andThen (followId_same hI (hcopies id List.mem_cons_self)) fun x hx => ?_
      have hstep : Meets False (fun y => UnderWay _ k (id :: done) y.result ∧ _)
          (followId inner location chain a defs id) :=
        followId_meets hinner False.elim location chain way hI False.elim
      rw [hx] at hstep
      refine ih (fun r hr => hcopies r (List.mem_cons_of_mem id hr)) hstep.1 hstep.2 hrest ?_
      intro r hr hdone
      rcases List.mem_cons.mp hdone with rfl | hdone
      · exact hid hr
      · exact hnew r (List.mem_cons_of_mem id hr) hdone

end Follow

/-! ## 5. What stands below -/

section Descend

variable {base defs : Definitions} {inner : Expander} {chain : List String} {a : Note} {f : Field}

/-- An expander makes the same of an annotation as another one at any time, and the other one keeps
    the definitions alike. -/
structure SameBelow (base : Definitions) (chain : List String) (innerBy inner : Expander)
    (c : Note) : Prop where
  same : ∀ {now}, (alikeCustody False base).Holds now →
    SameOutcome (innerBy chain now c) (inner chain now c)
  keeps : ∀ {now y}, (alikeCustody False base).Holds now → inner chain now c = .ok y →
    (alikeCustody False base).Holds y.definitions

theorem expandItemsBy_same {innerBy : Nat → Expander} (place : Nat) (vs : List Value)
    (h : ∀ place c, .note c ∈ vs → SameBelow base chain (innerBy place) inner c)
    (hI : (alikeCustody False base).Holds defs) :
    SameOutcome (expandItemsBy innerBy chain place defs vs) (expandItems inner chain defs vs) := by
  induction vs generalizing place defs with
  | nil => exact .refl _
  | cons v vs ih =>
      cases v with
      | note c =>
          have hc := h place c List.mem_cons_self
          rw [expandItemsBy, expandItems_cons_eq]
          refine SameOutcome.andThen (hc.same hI) fun x hx => .mapResult ?_
          exact ih (place + 1) (fun place d hd => h place d (List.mem_cons_of_mem _ hd))
            (hc.keeps hI hx)
      | _ => exact .refl _

theorem expandFieldBy_same {innerBy : Nat → Expander}
    (h : ∀ place, ∀ c ∈ (a.get f).notes, SameBelow base chain (innerBy place) inner c)
    (hI : (alikeCustody False base).Holds defs) :
    SameOutcome (expandFieldBy innerBy chain a defs f) (expandField inner chain a defs f) := by
  rw [← expandFieldBy_const]
  unfold expandFieldBy
  split
  · rename_i vs hvs
    rw [hvs] at h
    rw [expandItemsBy_const]
    exact (expandItemsBy_same 0 vs (fun place c hc => h place c (Value.mem_notes_list.mpr hc))
      hI).mapResult
  · rename_i c hc
    rw [hc] at h
    exact ((h 0 c (Value.mem_notes_note.mpr rfl)).same hI).mapResult
  · exact .refl _

/-- **Expanding fields comes to the same**, whatever is chosen below. -/
theorem expandFieldsBy_same {innerBy : Field → Nat → Expander} {fields : List Field}
    (hnodup : fields.Nodup)
    (h : ∀ f ∈ fields, ∀ place, ∀ c ∈ (a.get f).notes,
      SameBelow base chain (innerBy f place) inner c)
    (hI : (alikeCustody False base).Holds defs) :
    SameOutcome (expandFieldsBy innerBy chain a defs fields)
      (expandFields inner chain a defs fields) := by
  induction fields generalizing a defs with
  | nil => exact .refl _
  | cons f fields ih =>
      obtain ⟨hnot, hrest⟩ := List.nodup_cons.mp hnodup
      have hf := h f List.mem_cons_self
      rw [expandFieldsBy, expandFields_cons_eq]
      refine SameOutcome.andThen (expandFieldBy_same hf hI) fun x hx => ?_
      obtain ⟨hxI, hothers, -⟩ := expandField_logs (P := fun _ _ => True)
        (fun c hc now y hnow hy => ⟨(hf 0 c hc).keeps hnow hy, trivial⟩) hI hx
      refine ih hrest (fun g hg place c hc => ?_) hxI
      rw [hothers g fun e => hnot (e ▸ hg)] at hc
      exact h g (List.mem_cons_of_mem f hg) place c hc

end Descend

/-! ## 6. A whole run -/

/-- No id stands in it twice, and lists only in fields that are for lists; for an annotation without
    references the latter does not matter. -/
structure Note.Tidy (a : Note) : Prop where
  partials_nodup : a.partials.Nodup
  listsFit : a.partials = [] ∨ a.ListsFit

theorem Note.Proper.tidy {a : Note} (h : a.Proper) : a.Tidy :=
  ⟨h.partials_nodup trivial, .inr h.listsFit⟩

theorem Note.Settled.tidy {a : Note} (h : a.Settled) : a.Tidy where
  partials_nodup := by
    rw [h.partials_nil]
    exact List.nodup_nil
  listsFit := .inl h.partials_nil

/-- The copy of a definition is tidy, also when lists of the definition have grown. -/
theorem Note.Alike.tidy_copy {d e : Note} (h : d.Alike e) (hd : d.Throughout Note.Proper) :
    e.asCopy.Throughout Note.Tidy := by
  have hroot := hd.root
  refine .intro ⟨?_, .inr fun f vs hget => ?_⟩ fun c hc => ?_
  · show e.partials.Nodup
    rw [h.partials_eq]
    exact hroot.partials_nodup trivial
  · obtain ⟨ws, hws⟩ := h.list_iff.mp ⟨vs, hget⟩
    exact hroot.listsFit f ws hws
  · have hc : c ∈ e.children := hc
    rw [h.children_eq] at hc
    exact (hd.child hc).mono fun _ hb => hb.tidy

section Run

variable {base now : Definitions} {location : String} {chain : List String} {a b c : Note}

/-- What stands in the fields for annotations that nest nothing is expanded alone. -/
theorem inertField_of_leaf (depth : Nat)
    (hbase : ∀ id d, base.find? id = some d → d.Throughout Note.Proper) (hb : b.Nested)
    (hready : ∀ c ∈ b.children, c.Throughout (Note.Ready False))
    (htidy : ∀ c ∈ b.children, c.Throughout Note.Tidy) {f : Field} (hf : f ∈ b.kind.nestFields)
    (hleaf : f = .items ∨ f = .responseMessages) :
    InertField base (expandTo location depth) chain (b.get f) := by
  have hnests := hb.nests f hf
  have hkind : ∀ c ∈ (b.get f).notes, c.kind.isLeaf = true := by
    intro c hc
    rcases hleaf with rfl | rfl
    · rcases hnests with hnull | ⟨d, hd, hdk⟩
      · rw [hnull] at hc
        cases hc
      · rw [hd, Value.mem_notes_note] at hc
        rw [hc, hdk]
        rfl
    · obtain ⟨vs, hvs, hall⟩ := hnests
      rw [hvs, Value.mem_notes_list] at hc
      obtain ⟨d, hd, hdk⟩ := hall _ hc
      cases hd
      rw [hdk]
      rfl
  refine ⟨fun c hc => ?_, fun vs hvs w hw => ?_⟩
  · have hchild : c ∈ b.children := Note.mem_children.mpr ⟨f, hf, hc⟩
    refine expandTo_inert location depth chain hbase (hkind c hc) ?_
    rcases (hready c hchild).root.orderly with hnil | horderly
    · exact .inl hnil
    -- what still has references is as it was written, and its kind has no field for a list
    · rcases (htidy c hchild).root.listsFit with hnil | hfit
      · exact .inl hnil
      · exact .inr (Note.listless_of_isLeaf (hkind c hc) horderly.slotted horderly.unshared hfit)
  · rw [hvs] at hnests
    rcases hleaf with rfl | rfl
    · exact absurd hnests Value.not_nests_list
    · obtain ⟨_, ⟨⟩, hall⟩ := hnests
      obtain ⟨d, hd, -⟩ := hall w hw
      exact ⟨d, hd⟩

/-- The nest fields of an annotation whose references have been followed can change places. -/
theorem separate_nestFields (depth : Nat)
    (hbase : ∀ id d, base.find? id = some d → d.Throughout Note.Proper) (hb : b.Nested)
    (hready : ∀ c ∈ b.children, c.Throughout (Note.Ready False))
    (htidy : ∀ c ∈ b.children, c.Throughout Note.Tidy) :
    Separate base (expandTo location depth) chain b.kind.nestFields b where
  keeps f hf c hc _ _ hI hy :=
    (expandTo_settles hI (hready c (Note.mem_children.mpr ⟨f, hf, hc⟩)) hy).2.2
  inert _ hf _ hg hne := (Kind.isLeaf_of_nestFields hf hg hne).imp
    (inertField_of_leaf depth hbase hb hready htidy hf)
    (inertField_of_leaf depth hbase hb hready htidy hg)

/-- Runs of a depth come to the same, whatever is chosen. -/
def SameRuns (base : Definitions) (location : String) (depth : Nat) : Prop :=
  ∀ (orders : Orders) (chain : List String) {now : Definitions} {a : Note},
    (alikeCustody False base).Holds now → a.Throughout (Note.Ready False) →
    a.Throughout Note.Tidy →
      SameOutcome (expandBy location depth orders chain now a)
        (expandTo location depth chain now a)

variable {depth : Nat}

/-- The first half of a run. -/
theorem SameRuns.references (h : SameRuns base location depth)
    (hbase : ∀ id d, base.find? id = some d → d.Throughout Note.Proper) (orders : Orders)
    (hI : (alikeCustody False base).Holds now) (ha : a.Throughout (Note.Ready False))
    (htidy : a.Throughout Note.Tidy) :
    SameOutcome
      (followIdsBy (fun id => expandBy location depth (orders.after (.copy id))) (orders [])
        location chain a now (queue now chain a))
      (followIds (expandTo location depth) location chain a now (queue now chain a)) := by
  rcases ha.root.orderly with hnil | horderly
  · rw [queue_of_partials_nil now chain hnil]
    exact .refl _
  · refine followIdsBy_same (orders []) (expandTo_serves base location depth a.kind)
      (fun id _ {later e} hlater he => ?_) (.start ha horderly) hI
      (queue_nodup now chain htidy.root.partials_nodup) fun _ _ => List.not_mem_nil
    -- lists of the definition may have grown by now, but it nests and refers to the same
    obtain ⟨d, hd, hde⟩ := hlater.1.find? he
    exact h _ _ hlater (Custody.ready_copy ((alikeCustody False base).known hlater he))
      (hde.tidy_copy (hbase id d hd))

/-- The second half: what stands below comes to the same while the nest fields keep the order that
    was chosen, and then they change places. -/
theorem SameRuns.nestFields (h : SameRuns base location depth)
    (hbase : ∀ id d, base.find? id = some d → d.Throughout Note.Proper) (orders : Orders)
    (hI : (alikeCustody False base).Holds now) (hb : b.Nested)
    (hready : ∀ c ∈ b.children, c.Throughout (Note.Ready False))
    (htidy : ∀ c ∈ b.children, c.Throughout Note.Tidy) :
    SameOutcome
      (expandFieldsBy (fun f place => expandBy location depth (orders.after (.member f place)))
        chain { b with partials := [] } now ((orders []).nesting b.kind))
      (expandFields (expandTo location depth) chain { b with partials := [] } now
        b.kind.nestFields) := by
  have hperm := (orders []).nesting_perm b.kind
  have hnodup := hperm.nodup_iff.mpr b.kind.nestFields_nodup
  have hchosen : SameOutcome
      (expandFieldsBy (fun f place => expandBy location depth (orders.after (.member f place)))
        chain { b with partials := [] } now ((orders []).nesting b.kind))
      (expandFields (expandTo location depth) chain { b with partials := [] } now
        ((orders []).nesting b.kind)) := by
    refine expandFieldsBy_same hnodup (fun f hf place c hc => ?_) hI
    have hchild : c ∈ b.children := Note.mem_children.mpr ⟨f, hperm.mem_iff.mp hf, hc⟩
    exact ⟨fun hI => h _ _ hI (hready c hchild) (htidy c hchild),
      fun hI hy => (expandTo_settles hI (hready c hchild) hy).2.2⟩
  have hseparate : Separate base (expandTo location depth) chain b.kind.nestFields b :=
    separate_nestFields depth hbase hb hready htidy
  exact hchosen.trans (expandFields_perm hperm hnodup
    (hseparate.sub (fun f hf => hperm.mem_iff.mp hf) fun _ _ => rfl) hI)

/-- **Expansion with orders chosen comes to the same as expansion.** -/
theorem expandBy_same (hbase : ∀ id d, base.find? id = some d → d.Throughout Note.Proper)
    (depth : Nat) : SameRuns base location depth := by
  induction depth with
  | zero => exact fun _ _ _ _ _ _ _ => .refl _
  | succ depth ih =>
      intro orders chain now a hI ha htidy
      rw [expandBy, expandTo_succ_eq]
      refine SameOutcome.andThen (ih.references hbase orders hI ha htidy) fun x hx => ?_
      obtain ⟨-, -, hk, hnested, hready, hlater, -⟩ := followQueue_course hI ha hx
      -- what stands below by now stood below the annotation or a definition, or is a settled copy
      have hbelow := (followQueue_referenced hI ha htidy.root.partials_nodup hx).below
        (fun _ h => h.tidy) (fun c hc => htidy.child hc)
        fun id d hd => (hbase id d hd).mono fun _ h => h.tidy
      rw [← hk]
      exact ih.nestFields hbase orders hlater hnested hready hbelow

end Run

/-! ## 7. The main statement -/

/-- **Expansion does not depend on the order.** For an annotation and definitions as they were
    written, in which no annotation refers to one id twice: whatever orders are chosen for it and
    for all that is expanded on its account, expansion comes to the same annotation and the same
    definitions and has the same to say, in some order; one choice is the usual one, with which it
    is expansion as it is; and outside of groups there is a result. -/
theorem expansion_independent_of_order (location : String) (depth : Nat) (chain : List String)
    (defs : Definitions) (a : Note) (ha : a.Throughout Note.Proper)
    (hdefs : ∀ id d, defs.find? id = some d → d.Throughout Note.Proper) :
    expandBy location depth (fun _ => .standard) chain defs a =
      expandTo location depth chain defs a ∧
    (∀ orders others : Orders, SameOutcome (expandBy location depth orders chain defs a)
      (expandBy location depth others chain defs a)) ∧
    (a.kind.isGroup = false → a.kind.rank < depth →
      ∀ orders : Orders, ∃ x, expandBy location depth orders chain defs a = .ok x) := by
  have hready : a.Throughout (Note.Ready False) :=
    ha.mono fun _ h => ⟨h.toNested, .inr ⟨h.toFresh, False.elim⟩⟩
  have hholds : (alikeCustody False defs).Holds defs := alikeCustody_holds fun id d hd =>
    (hdefs id d hd).mono fun _ h => ⟨h.toFresh, False.elim⟩
  have hsame : ∀ orders : Orders, SameOutcome (expandBy location depth orders chain defs a)
      (expandTo location depth chain defs a) := fun orders =>
    expandBy_same hdefs depth orders chain hholds hready (ha.mono fun _ h => h.tidy)
  refine ⟨congrFun (congrFun (congrFun (expandBy_standard location depth) chain) defs) a,
    fun orders others => (hsame orders).trans (hsame others).symm, fun hk hdepth orders => ?_⟩
  refine (hsame orders).exists_ok (exists_expandTo location chain ?_ ?_ hk hdepth)
  · exact fun id d hd => (hdefs id d hd).mono fun _ h => h.toOrderly
  · exact ha.mono fun _ h => h.toOrderly

/-- Fields in the opposite order. -/
def Order.reversed : Order where
  nesting k := k.nestFields.reverse
  merging _ d := d.kind.fields.reverse
  nesting_perm _ := List.reverse_perm _
  merging_nodup _ d := (List.reverse_perm _).nodup_iff.mpr d.kind.fields_nodup
  merging_subset _ _ _ hf := List.mem_reverse.mp hf
  merging_said _ _ _ hf _ := List.mem_reverse.mpr hf

theorem Note.Throughout.proper_referring (k : Kind) {refs : List String} (h : refs.Nodup) :
    (Note.referring k refs).Throughout Note.Proper := by
  have horderly : (Note.referring k refs).Throughout (Note.Orderly True) :=
    .referring k refs fun _ => h
  have hchildren : (Note.referring k refs).children = [] := by
    cases k <;> rfl
  refine .intro ⟨horderly.root, fun f vs hget => ?_⟩ fun c hc => ?_
  · have hget : (Note.blank k).get f = .list vs := hget
    have hf : f ∈ k.fields := Note.keys_blank k ▸ Note.mem_keys_of_list hget
    rw [Note.get_blank hf, Field.default] at hget
    cases hl : f.alwaysList with
    | true =>
        obtain ⟨item, hitem⟩ := Field.shape_of_alwaysList hl
        rw [hitem]
        rfl
    | false =>
        rw [hl] at hget
        cases hget
  · rw [hchildren] at hc
    cases hc

/-- A list of annotations in a nest field. -/
theorem Note.Throughout.proper_set_list {a : Note} {f : Field} {vs : List Value}
    (h : a.Throughout Note.Proper) (hf : f.shape.takesList = true)
    (hn : f ∈ a.kind.nestFields → (Value.list vs).Nests f.shape ∧
      ∀ c ∈ (Value.list vs).notes, c.Throughout Note.Proper) :
    (a.set f (.list vs)).Throughout Note.Proper := by
  have hroot := h.root
  refine .intro ⟨⟨⟨hroot.toNested.set (fun _ => ⟨_, rfl⟩) fun hm => (hn hm).1, ?_⟩,
    hroot.partials_nodup⟩, ?_⟩ fun c hc => ?_
  · intro g origin e hget
    rcases a.get_set_cases f g (.list vs) with hnew | hold
    · rw [hnew] at hget
      cases hget
    · rw [hold] at hget
      exact hroot.unshared g origin e hget
  · intro g ws hget
    by_cases hgf : g = f
    · rw [hgf]
      exact hf
    · rw [Note.get_set_of_ne a _ hgf] at hget
      exact hroot.listsFit g ws hget
  · rcases Note.mem_children_set hroot.toNested hc with ⟨hm, hnew⟩ | hold
    · exact (hn hm).2 c hnew
    · exact h.child hold

/-- An operation that refers to another one, with a parameter and a response message that refer to
    what nobody defines. -/
def operationWithGaps : Note :=
  ((Note.referring .operation ["A"]).set .parameters
      (.list [.note (Note.referring .parameter ["gone"])])).set .responseMessages
    (.list [.note (Note.referring .responseMessage ["lost"])])

/-- With the opposite order everywhere it becomes the same operation, but the two warnings come in
    the opposite order. -/
theorem operationWithGaps_in_either_order :
    ∃ x y, expandBy "pets.php" (expansionDepth layeredOperations operationWithGaps)
        (fun _ => .reversed) [] layeredOperations operationWithGaps = .ok x ∧
      expand "pets.php" layeredOperations operationWithGaps = .ok y ∧
      x.result = y.result ∧ x.definitions = y.definitions ∧ x.log.Perm y.log ∧
      x.log.map (·.message) = ["gone", "lost"].reverse.map unknownIdMessage ∧
      y.log.map (·.message) = ["gone", "lost"].map unknownIdMessage := by
  have hone : ∀ (k : Kind) (id : String),
      (Value.list [.note (Note.referring k [id])]).Nests (.list (.child k)) ∧
        ∀ c ∈ (Value.list [.note (Note.referring k [id])]).notes, c.Throughout Note.Proper := by
    refine fun k id => ⟨⟨_, rfl, fun w hw => ⟨_, List.mem_singleton.mp hw, rfl⟩⟩, fun c hc => ?_⟩
    cases List.mem_singleton.mp (Value.mem_notes_list.mp hc)
    exact .proper_referring k (by simp)
  have ha : operationWithGaps.Throughout Note.Proper :=
    .proper_set_list (.proper_set_list (.proper_referring .operation (by decide)) rfl
      fun _ => hone .parameter "gone") rfl fun _ => hone .responseMessage "lost"
  have hdefs : ∀ id d, layeredOperations.find? id = some d → d.Throughout Note.Proper := by
    intro id d hd
    rcases List.mem_cons.mp (Definitions.mem_of_find? hd) with heq | hd
    · cases heq
      exact .proper_set_list (.proper_referring _ (by decide)) rfl fun h => absurd h (by decide)
    rcases List.mem_cons.mp hd with heq | hd
    · cases heq
      exact .proper_set_list (.proper_referring _ (by decide)) rfl fun h => absurd h (by decide)
    · cases List.mem_singleton.mp hd
      exact .proper_referring _ List.nodup_nil
  obtain ⟨hstandard, hsame, hexists⟩ := expansion_independent_of_order "pets.php"
    (expansionDepth layeredOperations operationWithGaps) [] layeredOperations operationWithGaps
    ha hdefs
  obtain ⟨x, hx⟩ := hexists rfl (rank_lt_expansionDepth _ _) fun _ => .reversed
  obtain ⟨y, hy⟩ := hexists rfl (rank_lt_expansionDepth _ _) fun _ => .standard
  have hxy := hsame (fun _ => .reversed) fun _ => .standard
  rw [hx, hy] at hxy
  rw [hstandard] at hy
  have hxlog : (expandBy "pets.php" (expansionDepth layeredOperations operationWithGaps)
      (fun _ => .reversed) [] layeredOperations operationWithGaps).toOption.map
        (·.log.map (·.message)) = some (["gone", "lost"].reverse.map unknownIdMessage) := by
    decide +kernel
  have hylog : (expand "pets.php" layeredOperations operationWithGaps).toOption.map
      (·.log.map (·.message)) = some (["gone", "lost"].map unknownIdMessage) := by
    decide +kernel
  have hy : expand "pets.php" layeredOperations operationWithGaps = .ok y := hy
  rw [hx] at hxlog
  rw [hy] at hylog
  exact ⟨x, y, hx, hy, hxy.1, hxy.2.1, hxy.2.2, Option.some.inj hxlog, Option.some.inj hylog⟩

end Marginalia
