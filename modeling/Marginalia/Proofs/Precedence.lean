import Marginalia.Proofs.Filings

/-!
# Which value of a field counts

Three stages write the fields of an annotation: reading its comment, filling in what its declaration
says, and expanding its references when all files have been read. This module says what validation
sees of that in the end, for whole runs:

* `Shown`: a field for text holds the first that is said by the annotation as it was read, by its
  declaration, and by the definitions of its kind, the nearer ones first (`BreadthFirst`);
* `MemberShown`, `EntryShown`: the same for an API or a property with the operations written in it,
  and for a resource or a model with all that goes into it;
* `Validates`: what validation is given of the sources, one after another, and what it keeps.

A run comes to an end if nothing that was read refers to one id twice (`exists_finishAll`).

Main statement: `first_said_value_counts`.
-/

namespace Marginalia

/-! ## 1. One annotation -/

/-- The ids that an annotation follows: all that its references lead to through definitions of its
    kind, each once and the nearer ones first. -/
structure BreadthFirst (pooled : Definitions) (a : Note) (ids : List String) : Prop where
  nodup : ids.Nodup
  mem_iff : ∀ id, id ∈ ids ↔ Leads pooled a.kind [] a.partials id
  nearer : ∀ n, reached pooled a.kind [] a.partials n <+: ids

/-- **The first that is said counts**: by the annotation as it was read, else by its declaration,
    else by a definition of its kind that it refers to, directly or through others. -/
structure Shown (pooled : Definitions) (derived : Field → Value) (a b : Note) : Prop where
  kind_eq : b.kind = a.kind
  said : ∃ ids, BreadthFirst pooled a ids ∧
    ∀ f ∈ a.kind.fields, f.shape = .text → f.isInternal = false →
      b.get f = Value.firstSaid (a.get f :: derived f :: ids.map (lent pooled [] a.kind f))

/-- An API or a property as validation sees it, with the operations written in it. -/
structure MemberShown (pooled : Definitions) (q : Filing) (b : Note) : Prop where
  own : Shown pooled q.derived q.read b
  operations : q.read.kind = .api → ∃ written more, b.get .operations = .list (written ++ more) ∧
    List.Forall₂ (Value.BecomesItem (Shown pooled q.derivedBelow))
      (q.read.get .operations).items written

/-- A resource or a model as validation sees it: behind its own items stand the annotations that
    were filed in it. -/
structure EntryShown (pooled : Definitions) (f : Field) (e : Opening) (b : Note) : Prop where
  own : Shown pooled e.opener.derived e.opener.read b
  members : ∃ first members more, b.get f = .list (first ++ members ++ more) ∧
    first.length = (e.opener.read.get f).items.length ∧
    List.Forall₂ (fun q v => ∃ c, v = .note c ∧ MemberShown pooled q c) e.members members

section Expanded

variable {base : Definitions} {location : String}

/-- What expansion makes of an annotation that was filled in. -/
theorem FilledIn.shown {derived : Field → Value} {a a' b : Note} (hfilled : FilledIn derived a a')
    (hbase : ∀ id d, base.find? id = some d → d.Worded) (ha : a'.Throughout Note.Legible)
    (h : ExpandsAlike base location [] a' b) : Shown base derived a b := by
  obtain ⟨-, -, -, -, -, hkind, -⟩ := h.parts ha
  have hmem := mem_queue_iff base [] a'
  have hnearer := reached_prefix_queue base [] a'
  rw [hfilled.kind_eq, hfilled.partials_eq] at hmem hnearer
  refine ⟨hkind.trans hfilled.kind_eq, queue base [] a',
    ⟨queue_nodup base [] (ha.root.partials_nodup trivial), hmem, hnearer⟩, ?_⟩
  intro f hf htext hinternal
  rw [h.texts hbase ha (hfilled.kind_eq ▸ hf) htext, hfilled.said f hf htext hinternal,
    Value.firstSaid_firstSaid, hfilled.kind_eq]

/-- Items that become others which become others in turn. -/
theorem becomesItem_trans {R S T : Note → Note → Prop} {us vs ws : List Value}
    (hRST : ∀ a b c, .note b ∈ vs → R a b → S b c → T a c)
    (hR : List.Forall₂ (Value.BecomesItem R) us vs)
    (hS : List.Forall₂ (Value.BecomesItem S) vs ws) :
    List.Forall₂ (Value.BecomesItem T) us ws := by
  induction hR generalizing ws with
  | nil =>
      cases hS
      exact .nil
  | cons huv _ ih =>
      cases hS with
      | cons hvw hrest =>
          obtain ⟨a, b, rfl, rfl, hab⟩ := huv
          obtain ⟨_, c, ⟨⟩, rfl, hbc⟩ := hvw
          exact .cons ⟨a, c, rfl, rfl, hRST a b c List.mem_cons_self hab hbc⟩
            (ih (fun a b c hb => hRST a b c (List.mem_cons_of_mem _ hb)) hrest)

/-- **An API or a property.** -/
theorem Filing.WellRead.shown {q : Filing} (hq : q.WellRead)
    (hbase : ∀ id d, base.find? id = some d → d.Worded) {b : Note}
    (h : ExpandsAlike base location [] q.note b) : MemberShown base q b where
  own := (Filing.filledIn hq.written.nested.slotted).shown hbase hq.legible h
  operations hk := by
    obtain ⟨vs, hvs, hfilled⟩ := Filing.operations hq.written hk
    have hnests : .operations ∈ q.note.kind.nestFields := by
      rw [q.kind_note, hk]
      decide
    obtain ⟨ws, more, hws, hexpanded⟩ := h.lists hq.legible hnests hvs
    refine ⟨ws, more, hws, becomesItem_trans (fun o o' c ho' hoo' hc => ?_) hfilled hexpanded⟩
    have hlegible := hq.legible.child (Note.mem_children_of_list hnests hvs ho')
    exact hoo'.shown hbase hlegible hc

/-- A filed entry is its opener, filled in, with a longer list. -/
theorem Opening.filledIn {f : Field} {e : Opening} (h : e.opener.read.Slotted)
    (hf : f.shape ≠ .text) : FilledIn e.opener.derived e.opener.read (e.entry f) where
  kind_eq := e.opener.kind_note
  partials_eq := e.opener.partials_note
  said g hg htext hinternal := by
    have hne : g ≠ f := fun heq => hf (heq ▸ htext)
    rw [entry, Note.get_extend_of_ne _ _ hne]
    exact (Filing.filledIn h).said g hg htext hinternal

/-- **A resource or a model**, with the list for what goes into it. -/
theorem Opening.WellRead.shown {f : Field} {e : Opening} (he : e.WellRead f)
    (hlist : f.alwaysList = true) (hoperations : f ≠ .operations)
    (hbase : ∀ id d, base.find? id = some d → d.Worded) {b : Note}
    (h : ExpandsAlike base location [] (e.entry f) b) : EntryShown base f e b := by
  have hslotted := he.opener.written.nested.slotted
  have hfields := Kind.nestFields_subset he.nests
  obtain ⟨hinternal, hshape⟩ : f.isInternal = false ∧ f.shape ≠ .text := by
    revert hlist
    cases f <;> decide
  obtain ⟨vs, hvs⟩ := hslotted.lists f hfields hlist
  have hnote : e.opener.note.get f = .list vs := by
    rw [Filing.get_note hslotted hfields hoperations hinternal, hvs]
    rfl
  have hget : (e.entry f).get f = .list (vs ++ e.members.map fun q => .note q.note) := by
    have hkey : f ∈ e.opener.note.keys :=
      (hslotted.fillFrom _ _ _).mem (e.opener.kind_note ▸ hfields)
    rw [Opening.entry, Note.get_extend_self _ hkey, hnote]
    rfl
  obtain ⟨ws, more, hws, hall⟩ := h.lists he.legible (e.opener.kind_note ▸ he.nests) hget
  -- the items of the opener are as many as they were, the members stand behind them
  have hlength : vs.length ≤ ws.length := by
    rw [← hall.length_eq, List.length_append]
    omega
  have hbehind := List.forall₂_drop vs.length hall
  rw [List.drop_left, List.forall₂_map_left_iff] at hbehind
  refine ⟨(Opening.filledIn hslotted hshape).shown hbase he.legible h, ws.take vs.length,
    ws.drop vs.length, more, ?_, ?_, ?_⟩
  · rw [List.take_append_drop, hws]
  · rw [hvs]
    exact List.length_take_of_le hlength
  · refine ((List.forall₂_and_left _ _).mpr ⟨he.members, hbehind⟩).imp fun q w hqw => ?_
    obtain ⟨hq, _, c, ⟨⟩, rfl, hc⟩ := hqw
    exact ⟨c, rfl, hq.shown hbase hc⟩

end Expanded

/-! ## 2. Runs -/

section Runs

variable {base : Definitions}

/-- Annotations that are expanded one after another. -/
theorem exists_expandAll (location : String) (notes : List Note) {defs : Definitions}
    (hI : (alikeCustody True base).Holds defs)
    (hnotes : ∀ a ∈ notes, a.Throughout Note.Legible ∧ a.kind.isGroup = false) :
    ∃ x, expandAll location defs notes = .ok x ∧ (alikeCustody True base).Holds x.definitions ∧
      List.Forall₂ (ExpandsAlike base location []) notes x.result := by
  induction notes generalizing defs with
  | nil => exact ⟨_, rfl, hI, .nil⟩
  | cons a notes ih =>
      obtain ⟨⟨ha, hk⟩, hmore⟩ := List.forall_mem_cons.mp hnotes
      have hloose : (alikeCustody False base).Holds defs :=
        ⟨hI.1, fun id e he => (hI.2 id e he).mono fun _ h => ⟨h.toFresh, False.elim⟩⟩
      have hrun := expandTo_meets (alikeCustody True base) location (expansionDepth defs a) [] defs
        a hI (ha.mono fun _ h => h.toOrderly.ready) fun _ => ⟨hk, rank_lt_expansionDepth defs a⟩
      cases hy : expandTo location (expansionDepth defs a) [] defs a with
      | error e =>
          rw [hy] at hrun
          exact absurd trivial hrun
      | ok y =>
          rw [hy] at hrun
          obtain ⟨z, hz, hzI, hall⟩ := ih hrun.2.2 hmore
          refine ⟨⟨y.result :: z.result, z.definitions, y.log ++ z.log⟩, ?_, hzI,
            .cons ⟨defs, _, y, hloose, hy, rfl⟩ hall⟩
          have hexpand : expand location defs a = .ok y := hy
          rw [expandAll, hexpand]
          dsimp only
          rw [hz]

/-- **What validation is given of the sources** and what it keeps of it: the resources and models of
    each source as they were filed, expanded one after another with the definitions as they are by
    then. -/
inductive Validates :
    Definitions → List (String × List UInt8) → List Section → Section → Definitions → Prop
  | nil {defs : Definitions} : Validates defs [] [] ⟨[], []⟩ defs
  | cons {source : String × List UInt8} {more : List (String × List UInt8)}
      {defs last : Definitions} {x y : Expanded (List Note)} {seen : List Section} {kept : Section}
      (resources : expandAll source.1 defs (scanOf source).registry.resources = .ok x)
      (models : expandAll source.1 x.definitions (scanOf source).registry.models = .ok y)
      (rest : Validates y.definitions more seen kept last) :
      Validates defs (source :: more) (⟨x.result, y.result⟩ :: seen)
        ⟨(pruneRoots source.1 x.result).1 ++ kept.resources,
          (pruneRoots source.1 y.result).1 ++ kept.models⟩ last

/-- What validation is given of one source, each annotation expanded in its place. -/
structure SectionAlike (base : Definitions) (source : String × List UInt8) (s : Section) :
    Prop where
  resources : List.Forall₂ (ExpandsAlike base source.1 [])
    (scanOf source).registry.resources s.resources
  models : List.Forall₂ (ExpandsAlike base source.1 []) (scanOf source).registry.models s.models

/-- **The second pass comes to an end.** -/
theorem exists_finishAll (files : List (String × List UInt8)) {defs : Definitions}
    (hI : (alikeCustody True base).Holds defs)
    (hfiles : ∀ source ∈ files, ∀ a ∈ (scanOf source).registry.collected,
      a.Throughout Note.Legible ∧ a.kind.isGroup = false) :
    ∃ x seen, finishAll defs (files.map scanOf) = .ok x ∧
      Validates defs files seen x.result x.definitions ∧
      List.Forall₂ (SectionAlike base) files seen := by
  induction files generalizing defs with
  | nil => exact ⟨_, [], rfl, .nil, .nil⟩
  | cons source files ih =>
      obtain ⟨hsource, hmore⟩ := List.forall_mem_cons.mp hfiles
      obtain ⟨hresources, hmodels⟩ := List.forall_mem_append.mp hsource
      obtain ⟨x, hx, hxI, hxall⟩ := exists_expandAll source.1 _ hI hresources
      obtain ⟨y, hy, hyI, hyall⟩ := exists_expandAll source.1 _ hxI hmodels
      obtain ⟨z, seen, hz, hvalidates, hall⟩ := ih hyI hmore
      have hpath : (scanOf source).path = source.1 := rfl
      refine ⟨⟨_, z.definitions, (scanOf source).log ++ x.log ++ y.log ++
          (pruneRoots source.1 x.result).2 ++ (pruneRoots source.1 y.result).2 ++ z.log⟩,
        ⟨x.result, y.result⟩ :: seen, ?_, .cons hx hy hvalidates, .cons ⟨hxall, hyall⟩ hall⟩
      rw [List.map_cons, finishAll, FileScan.finish, hpath, hx]
      dsimp only
      rw [hy]
      dsimp only
      rw [hz]
      rfl

end Runs

/-! ## 3. Entries -/

section Entries

variable {base : Definitions} {source : String × List UInt8} {opener member : Kind} {f : Field}

theorem legible_of_mem_entries (hwell : ∀ p ∈ filingsOf source, p.WellRead)
    (hwritten : ∀ a ∈ entries opener member f (declaredIn source), a.Written)
    (hf : f ∈ opener.nestFields) (hlist : f.alwaysList = true) (hgroup : opener.isGroup = false)
    {a : Note} (ha : a ∈ entries opener member f (declaredIn source)) :
    a.Throughout Note.Legible ∧ a.kind.isGroup = false := by
  rw [declaredIn, ← map_note_filings, entries_eq_openings] at ha
  obtain ⟨e, he, rfl⟩ := List.mem_map.mp ha
  refine ⟨(wellRead_of_mem_openings hwell hf hlist hwritten he).legible, ?_⟩
  rw [Opening.entry, Note.kind_extend, e.opener.kind_note, (from_of_mem_openings he).opener_kind]
  exact hgroup

/-- **The entries of a source**, each as validation sees it. -/
theorem entries_shown (hwell : ∀ p ∈ filingsOf source, p.WellRead)
    (hwritten : ∀ a ∈ entries opener member f (declaredIn source), a.Written)
    (hf : f ∈ opener.nestFields) (hlist : f.alwaysList = true) (hoperations : f ≠ .operations)
    (hbase : ∀ id d, base.find? id = some d → d.Worded) {bs : List Note}
    (h : List.Forall₂ (ExpandsAlike base source.1 [])
      (entries opener member f (declaredIn source)) bs) :
    List.Forall₂ (EntryShown base f) (openings opener member (filingsOf source)) bs := by
  have hopenings : ∀ e ∈ openings opener member (filingsOf source), e.WellRead f := fun e he =>
    wellRead_of_mem_openings hwell hf hlist hwritten he
  rw [declaredIn, ← map_note_filings, entries_eq_openings, List.forall₂_map_left_iff] at h
  exact ((List.forall₂_and_left _ _).mpr ⟨hopenings, h⟩).imp fun e b heb =>
    heb.1.shown hlist hoperations hbase heb.2

end Entries

/-! ## 4. The main statement -/

/-- **The first value that is said counts, through all stages.** For any sources in which nothing
    refers to one id twice there is a report, and it holds what validation keeps of what it is
    given. Of each source it is given, in order:

    * the resources and the models that stand for themselves, each with its own items and then the
      APIs or properties that follow it before the next one;
    * and in each of these, and in the operations written in such an API, a field for text (paths,
      ids, names, types and nicknames among them) holds the first that is said: by the annotation as
      it was read; by the declaration that its comment stands at; by the definitions of its kind
      that its references lead to, the nearer ones first. It is null if none of them says
      anything. -/
theorem first_said_value_counts (files : List (String × List UInt8))
    (hnodup : ∀ source ∈ files, ∀ c ∈ submissionsOf source, ∀ a ∈ c.read,
      a.Throughout fun b => b.partials.Nodup) :
    ∃ r seen kept, Report.ofScans (scansOf files) = .ok r ∧
      Validates (pool [] (scansOf files)).1 files seen kept r.definitions ∧
      r.resources = kept.resources.map (·.settled r.definitions) ∧
      r.models = kept.models.map (·.settled r.definitions) ∧
      List.Forall₂ (fun source s =>
        List.Forall₂ (EntryShown (pool [] (scansOf files)).1 .apis)
          (openings .resource .api (filingsOf source)) s.resources ∧
        List.Forall₂ (EntryShown (pool [] (scansOf files)).1 .properties)
          (openings .model .property (filingsOf source)) s.models) files seen := by
  have hwell : ∀ source ∈ files, ∀ p ∈ filingsOf source, p.WellRead := fun source hsource p hp =>
    wellRead_of_mem_filingsOf (hnodup source hsource) hp
  have hbase : ∀ id d, (pool [] (scansOf files)).1.find? id = some d → d.Worded :=
    fun id d hd => (pool_legible hwell hd).root.words
  have hI : (alikeCustody True (pool [] (scansOf files)).1).Holds (pool [] (scansOf files)).1 :=
    alikeCustody_holds fun id d hd => (pool_legible hwell hd).mono fun _ h => h.toOrderly
  have hresources : ∀ source, ∀ a ∈ entries .resource .api .apis (declaredIn source), a.Written :=
    fun source => (scanOf_holds source).1.resources ▸ (ofSource_written source.1 source.2).resources
  have hmodels : ∀ source, ∀ a ∈ entries .model .property .properties (declaredIn source),
      a.Written :=
    fun source => (scanOf_holds source).1.models ▸ (ofSource_written source.1 source.2).models
  obtain ⟨x, seen, hx, hvalidates, hall⟩ := exists_finishAll files hI fun source hsource => by
    have hheld := (scanOf_holds source).1
    refine List.forall_mem_append.mpr ⟨fun a ha => ?_, fun a ha => ?_⟩
    · exact legible_of_mem_entries (hwell source hsource) (hresources source) (by decide) rfl rfl
        (hheld.resources ▸ ha)
    · exact legible_of_mem_entries (hwell source hsource) (hmodels source) (by decide) rfl rfl
        (hheld.models ▸ ha)
  have hreport : Report.ofScans (scansOf files) = .ok ⟨(scansOf files).map (·.path),
      x.result.resources.map (·.settled x.definitions),
      x.result.models.map (·.settled x.definitions), x.definitions,
      (pool [] (scansOf files)).2 ++ x.log⟩ := by
    have hx : finishAll (pool [] (scansOf files)).1 (scansOf files) = .ok x := hx
    unfold Report.ofScans
    dsimp only
    rw [hx]
    rfl
  refine ⟨_, seen, x.result, hreport, hvalidates, rfl, rfl, ?_⟩
  refine ((List.forall₂_and_left _ _).mpr ⟨hwell, hall⟩).imp fun source s hs => ?_
  have hheld := (scanOf_holds source).1
  exact ⟨entries_shown hs.1 (hresources source) (by decide) rfl (by decide) hbase
      (hheld.resources ▸ hs.2.resources),
    entries_shown hs.1 (hmodels source) (by decide) rfl (by decide) hbase
      (hheld.models ▸ hs.2.models)⟩

/-- A resource that names its path, an API with an operation at a method, and a definition that the
    operation refers to. -/
def layeredRoute : List (String × List UInt8) :=
  [("a.php", ("<?php /** @SWG\\Resource(resourcePath=\"/p\") */ class P\x7b" ++
      "/** @SWG\\Api(@SWG\\Operation(@SWG\\Partial(\"o\"))) */ function all()\x7b\x7d\x7d" ++
      "/** @SWG\\Operation(partial=\"o\",nickname=\"n\",method=\"GET\") */").toUTF8.toList)]

/-- The path of a resource, and below it the paths, nicknames and methods. -/
def Note.routeTexts (a : Note) : List (Option String) :=
  a.text? .resourcePath :: (a.get .apis).notes.flatMap fun b =>
    b.text? .path :: (b.get .operations).notes.flatMap fun o => [o.text? .nickname, o.text? .method]

/-- The resource has its own path and the API one made from it. The nickname comes from the method,
    although the definition has one, and the HTTP method from the definition. -/
theorem first_said_value_counts_in_layeredRoute :
    (∀ source ∈ layeredRoute, ∀ c ∈ submissionsOf source, ∀ a ∈ c.read,
      a.Throughout fun b => b.partials.Nodup) ∧
    ∃ r seen kept, Report.ofScans (scansOf layeredRoute) = .ok r ∧
      Validates (pool [] (scansOf layeredRoute)).1 layeredRoute seen kept r.definitions ∧
      r.resources.flatMap Note.routeTexts =
        [some "/p", some "/p/all", some "all", some "GET"] := by
  -- nothing stands below what stands below an annotation; both facts read the source once
  obtain ⟨hlevels, htexts⟩ : layeredRoute.all (fun source => (submissionsOf source).all fun c =>
        c.read.all fun a => decide a.partials.Nodup && a.children.all fun b =>
          decide b.partials.Nodup && b.children.isEmpty) = true ∧
      (Report.ofScans (scansOf layeredRoute)).toOption.map
          (fun r => r.resources.flatMap Note.routeTexts) =
        some [some "/p", some "/p/all", some "all", some "GET"] := by
    decide +kernel
  have hnodup : ∀ source ∈ layeredRoute, ∀ c ∈ submissionsOf source, ∀ a ∈ c.read,
      a.Throughout fun b => b.partials.Nodup := by
    intro source hsource c hc a ha
    have hread := List.all_eq_true.mp (List.all_eq_true.mp
      (List.all_eq_true.mp hlevels source hsource) c hc) a ha
    obtain ⟨hroot, hbelow⟩ := Bool.and_eq_true_iff.mp hread
    refine .intro (of_decide_eq_true hroot) fun b hb => ?_
    obtain ⟨hchild, hnone⟩ := Bool.and_eq_true_iff.mp (List.all_eq_true.mp hbelow b hb)
    refine .intro (of_decide_eq_true hchild) fun d hd => ?_
    rw [List.isEmpty_iff.mp hnone] at hd
    cases hd
  obtain ⟨r, seen, kept, hr, hvalidates, -⟩ := first_said_value_counts layeredRoute hnodup
  rw [hr] at htexts
  exact ⟨hnodup, r, seen, kept, hr, hvalidates, Option.some.inj htexts⟩

end Marginalia
