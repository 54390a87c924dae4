import Marginalia.Proofs.Reading
import Marginalia.Proofs.Expansion.Custody

/-!
# When expansion leaves the definitions alone

A list that fills an unsaid field stays that of the definition, and a second definition extends it
there. This happens if and only if two definitions of one kind have a list in the same field, one
that an annotation may leave unsaid, and the second list is not empty (`Definitions.Clash`):

* without a clash every run returns the definitions as it received them (`expandTo_keeps`), so that
  annotations and files that are expanded one after another have nothing to do with each other
  (`expandAll_alone`, `finishAll_alone`);
* with a clash there is a run that does not: an annotation that refers to the two definitions, in
  this order, and is barred from all others (`exists_run_of_clash`). Merging is followed field by
  field for this (`mergeFields_at`), and all that stands below finds nothing to follow
  (`expandTo_idle`).
-/

namespace Marginalia

/-! ## 1. Without a clash -/

/-- **Two definitions of one kind have a list in the same field**, where an annotation may leave it
    unsaid, and the second list is not empty. -/
def Definitions.Clash (defs : Definitions) : Prop :=
  ∃ (i j : String) (f : Field) (d e : Note) (xs : List Value) (y : Value) (ys : List Value),
    i ≠ j ∧ defs.find? i = some d ∧ defs.find? j = some e ∧ d.kind = e.kind ∧
      f.alwaysList = false ∧ d.get f = .list xs ∧ e.get f = .list (y :: ys)

theorem Note.mem_keys_of_list {a : Note} {f : Field} {vs : List Value} (h : a.get f = .list vs) :
    f ∈ a.keys := by
  refine Classical.byContradiction fun hf => ?_
  rw [get_of_not_mem hf] at h
  cases h

/-- A list that grows by nothing leaves the definitions as they are. -/
theorem Definitions.extend_nil {defs : Definitions} (hd : defs.Distinct) {origin : String}
    {e : Note} (he : defs.find? origin = some e) (hs : e.Slotted) {f : Field} {xs : List Value}
    (hxs : e.get f = .list xs) : defs.extend origin f [] = defs := by
  have hself : e.set f (.list ((e.get f).items ++ [])) = e := by
    rw [hxs]
    show e.set f (.list (xs ++ [])) = e
    rw [List.append_nil, ← hxs]
    exact Note.set_get hs.nodup (Note.mem_keys_of_list hxs)
  refine (List.map_congr_left fun p hp => ?_).trans (List.map_id _)
  by_cases hpo : p.1 = origin
  · -- ids are distinct, so what stands under this one is what it finds
    have hp2 : e = p.2 := by
      have hfind := find?_of_mem hd hp
      rw [hpo, he] at hfind
      exact Option.some.inj hfind
    rw [if_pos (beq_iff_eq.mpr hpo), ← hp2, hself, hp2]
    rfl
  · rw [if_neg fun h => hpo (beq_iff_eq.mp h)]
    rfl

/-- Definitions as they were written: every id once, and no list that two of them have in common. -/
structure Definitions.Fresh (defs : Definitions) : Prop where
  distinct : defs.Distinct
  written : ∀ id d, defs.find? id = some d → d.Throughout Note.Fresh

section Kept

variable {defs : Definitions}

/-- The definitions are what they were. -/
def keptCustody (hd : defs.Fresh) (hno : ¬defs.Clash) : Custody False where
  Holds now := now = defs
  Known id d := defs.find? id = some d
  known hI h := by
    rw [hI] at h
    exact h
  orderly h := (hd.written _ _ h).mono fun _ hb => ⟨hb, False.elim⟩
  extended {now id origin d e f xs ys} hI he hd' hk hf hm hxs hys hself := by
    rw [hI]
    cases ys with
    | nil => exact Definitions.extend_nil hd.distinct he (hd.written _ _ he).root.slotted hxs
    | cons y ys =>
        refine absurd ⟨origin, id, f, e, d, xs, y, ys, ?_, he, hd', hk, ?_, hxs, hys⟩ hno
        · intro ho
          cases hself ho
        · refine Bool.eq_false_iff.mpr fun hl => hm ?_
          exact (Kind.mem_nestFields hf).mpr (Field.nests_of_alwaysList hl)

/-- **Without a clash no run alters a definition.** -/
theorem expandTo_keeps (hd : defs.Fresh) (hno : ¬defs.Clash) {location : String} {depth : Nat}
    {chain : List String} {a : Note} {x : Expanded Note} (ha : a.Throughout Note.Fresh)
    (hx : expandTo location depth chain defs a = .ok x) : x.definitions = defs := by
  have hready : a.Throughout (Note.Ready False) :=
    ha.mono fun _ hb => ⟨hb.toNested, .inr ⟨hb, False.elim⟩⟩
  have hrun := expandTo_meets (keptCustody hd hno) location depth chain defs a rfl hready
    False.elim
  rw [hx] at hrun
  exact hrun.2.2

/-- What an annotation comes to when it is expanded on its own. -/
def Note.alone (defs : Definitions) (location : String) (a : Note) : Note :=
  match expand location defs a with
  | .ok x => x.result
  | .error _ => a

/-- Annotations one after another come to what each of them comes to on its own. -/
theorem expandAll_alone (hd : defs.Fresh) (hno : ¬defs.Clash) (location : String)
    (notes : List Note) (hn : ∀ a ∈ notes, a.Throughout Note.Fresh) {y : Expanded (List Note)}
    (hy : expandAll location defs notes = .ok y) :
    y.definitions = defs ∧ y.result = notes.map (·.alone defs location) := by
  induction notes generalizing y with
  | nil =>
      cases hy
      exact ⟨rfl, rfl⟩
  | cons a notes ih =>
      unfold expandAll at hy
      cases hx : expand location defs a with
      | error e =>
          rw [hx] at hy
          cases hy
      | ok x =>
          rw [hx] at hy
          dsimp only at hy
          have hkept : x.definitions = defs := expandTo_keeps hd hno (hn a List.mem_cons_self) hx
          rw [hkept] at hy
          cases hz : expandAll location defs notes with
          | error e =>
              rw [hz] at hy
              cases hy
          | ok z =>
              rw [hz] at hy
              cases hy
              obtain ⟨hzd, hzr⟩ := ih (fun b hb => hn b (List.mem_cons_of_mem a hb)) hz
              refine ⟨hzd, ?_⟩
              have halone : a.alone defs location = x.result := by
                unfold Note.alone
                rw [hx]
              rw [List.map_cons, halone, ← hzr]

/-- The annotations of a file, each expanded on its own, and then validated. -/
def FileScan.alone (s : FileScan) (defs : Definitions) : Section :=
  ⟨(pruneRoots s.path (s.registry.resources.map (·.alone defs s.path))).1,
    (pruneRoots s.path (s.registry.models.map (·.alone defs s.path))).1⟩

theorem finish_alone (hd : defs.Fresh) (hno : ¬defs.Clash) {s : FileScan}
    (hs : ∀ a ∈ s.registry.collected, a.Throughout Note.Fresh) {x : Expanded Section}
    (hx : s.finish defs = .ok x) : x.definitions = defs ∧ x.result = s.alone defs := by
  unfold FileScan.finish at hx
  cases hr : expandAll s.path defs s.registry.resources with
  | error e =>
      rw [hr] at hx
      cases hx
  | ok r =>
      obtain ⟨hrd, hrr⟩ := expandAll_alone hd hno s.path s.registry.resources
        (fun a ha => hs a (List.mem_append_left _ ha)) hr
      rw [hr] at hx
      dsimp only at hx
      rw [hrd] at hx
      cases hm : expandAll s.path defs s.registry.models with
      | error e =>
          rw [hm] at hx
          cases hx
      | ok m =>
          obtain ⟨hmd, hmr⟩ := expandAll_alone hd hno s.path s.registry.models
            (fun a ha => hs a (List.mem_append_right _ ha)) hm
          rw [hm] at hx
          cases hx
          refine ⟨hmd, ?_⟩
          unfold FileScan.alone
          rw [← hrr, ← hmr]
          rfl

/-- Files one after another come to what each of them comes to on its own. -/
theorem finishAll_alone (hd : defs.Fresh) (hno : ¬defs.Clash) (scans : List FileScan)
    (hs : ∀ s ∈ scans, ∀ a ∈ s.registry.collected, a.Throughout Note.Fresh)
    {y : Expanded Section} (hy : finishAll defs scans = .ok y) :
    y.definitions = defs ∧ y.result.resources = scans.flatMap (fun s => (s.alone defs).resources) ∧
      y.result.models = scans.flatMap (fun s => (s.alone defs).models) := by
  induction scans generalizing y with
  | nil =>
      cases hy
      exact ⟨rfl, rfl, rfl⟩
  | cons s scans ih =>
      unfold finishAll at hy
      cases hx : s.finish defs with
      | error e =>
          rw [hx] at hy
          cases hy
      | ok x =>
          obtain ⟨hxd, hxr⟩ := finish_alone hd hno (hs s List.mem_cons_self) hx
          rw [hx] at hy
          dsimp only at hy
          rw [hxd] at hy
          cases hz : finishAll defs scans with
          | error e =>
              rw [hz] at hy
              cases hy
          | ok z =>
              obtain ⟨hzd, hzr, hzm⟩ := ih (fun t ht => hs t (List.mem_cons_of_mem s ht)) hz
              rw [hz] at hy
              cases hy
              refine ⟨hzd, ?_, ?_⟩
              · show x.result.resources ++ z.result.resources = _
                rw [hxr, hzr, List.flatMap_cons]
              · show x.result.models ++ z.result.models = _
                rw [hxr, hzm, List.flatMap_cons]

end Kept

/-! ## 2. Runs that find nothing to follow -/

section Idle

variable (location : String) {chain : List String} {defs : Definitions}

/-- An id that is unknown, barred or of a higher kind is not followed. -/
theorem followId_idle (inner : Expander) {a : Note} (hk : a.kind.isGroup = false) {id : String}
    (h : ∀ d, defs.find? id = some d → id ∈ chain ∨ a.kind.rank < d.kind.rank) :
    ∃ log, followId inner location chain a defs id = .ok ⟨a, defs, log⟩ := by
  unfold followId
  split
  · exact ⟨_, rfl⟩
  · rename_i d hd
    split
    · exact ⟨_, rfl⟩
    · rename_i hchain
      have hrank : a.kind.rank < d.kind.rank :=
        (h d hd).resolve_left fun hm => hchain (List.contains_iff_mem.mpr hm)
      split
      · rename_i heq
        rw [heq] at hrank
        exact absurd hrank (Nat.lt_irrefl _)
      · split
        · rename_i f hf
          split
          · exact ⟨_, rfl⟩
          · rename_i hg
            have := Kind.rank_lt_of_nestField? hk (Bool.eq_false_iff.mpr hg) hf
            omega
        · exact ⟨_, rfl⟩

theorem followIds_idle (inner : Expander) {a : Note} (hk : a.kind.isGroup = false)
    (ids : List String)
    (h : ∀ id ∈ ids, ∀ d, defs.find? id = some d → id ∈ chain ∨ a.kind.rank < d.kind.rank) :
    ∃ log, followIds inner location chain a defs ids = .ok ⟨a, defs, log⟩ := by
  induction ids with
  | nil => exact ⟨_, rfl⟩
  | cons id ids ih =>
      obtain ⟨log, hstep⟩ := followId_idle location inner hk (h id List.mem_cons_self)
      obtain ⟨more, hrest⟩ := ih fun r hr => h r (List.mem_cons_of_mem id hr)
      refine ⟨log ++ more, ?_⟩
      unfold followIds
      rw [hstep]
      dsimp only
      rw [hrest]

/-- The annotations below an annotation whose references lead nowhere. -/
theorem expandFields_idle {inner : Expander} {a : Note} (hk : a.kind.isGroup = false)
    (ha : a.Throughout Note.Nested)
    (hinner : Descends True (· = defs) (·.Throughout Note.Nested) (fun _ => True) a.kind inner
      chain) :
    ∃ x, expandFields inner chain { a with partials := [] } defs a.kind.nestFields = .ok x ∧
      x.result.kind = a.kind ∧ x.definitions = defs := by
  have hbare : Descending (·.Throughout Note.Nested) (fun _ => True) a.kind a.kind.nestFields
      { a with partials := [] } := by
    refine ⟨rfl, ⟨ha.root.congr rfl rfl, rfl⟩, fun f hf b hb => ?_, fun f hf hnot => absurd hf hnot⟩
    exact ha.child (Note.mem_children.mpr ⟨f, hf, hb⟩)
  have hdown := expandFields_meets hinner (fun _ => hk) a.kind.nestFields (fun _ h => h)
    a.kind.nestFields_nodup _ defs hbare rfl
  cases hx : expandFields inner chain { a with partials := [] } defs a.kind.nestFields with
  | error e =>
      rw [hx] at hdown
      exact absurd trivial hdown
  | ok x =>
      rw [hx] at hdown
      exact ⟨x, rfl, hdown.1.kind_eq, hdown.2⟩

/-- **Where all definitions of lower kinds are barred, a run alters nothing and does not fail.** -/
theorem expandTo_idle {n : Nat}
    (hbar : ∀ id d, defs.find? id = some d → id ∈ chain ∨ n ≤ d.kind.rank) (depth : Nat) (a : Note)
    (hk : a.kind.isGroup = false) (ha : a.Throughout Note.Nested) (hn : a.kind.rank < n)
    (hdepth : a.kind.rank < depth) :
    ∃ x, expandTo location depth chain defs a = .ok x ∧ x.result.kind = a.kind ∧
      x.definitions = defs := by
  induction depth generalizing a with
  | zero => exact absurd hdepth (Nat.not_lt_zero _)
  | succ depth ih =>
      have hinner : Descends True (· = defs) (·.Throughout Note.Nested) (fun _ => True) a.kind
          (expandTo location depth) chain := by
        intro now b hnow hb hasked
        obtain ⟨hbk, hlt⟩ := hasked trivial
        obtain ⟨x, hx, hxk, hxd⟩ := ih b hbk hb (by omega) (by omega)
        rw [hnow, hx]
        exact ⟨hxk, trivial, hxd⟩
      have hnone : ∃ log, followIds (expandTo location depth) location chain a defs
          (queue defs chain a) = .ok ⟨a, defs, log⟩ :=
        followIds_idle location _ hk _ fun id _ d hd => (hbar id d hd).imp_right fun h => by omega
      obtain ⟨log, hfollow⟩ := hnone
      obtain ⟨x, hx, hxk, hxd⟩ := expandFields_idle hk ha hinner
      refine ⟨⟨x.result, x.definitions, log ++ x.log⟩, ?_, hxk, hxd⟩
      unfold expandTo
      dsimp only
      rw [hfollow]
      dsimp only
      rw [hx]

end Idle

/-! ## 3. One field of a merge -/

/-- What a field holds in each of the definitions. -/
def Definitions.column (defs : Definitions) (f : Field) (id : String) : Option Value :=
  (defs.find? id).map (·.get f)

/-- Other fields are not affected when a list grows. -/
theorem Definitions.column_extend_of_ne (defs : Definitions) (origin id : String) {f g : Field}
    (h : f ≠ g) (items : List Value) :
    (defs.extend origin g items).column f id = defs.column f id := by
  unfold column
  rw [find?_extend, Option.map_map]
  congr 1
  funext d
  show (if id = origin then d.extend g items else d).get f = d.get f
  split
  · exact Note.get_extend_of_ne d items h
  · rfl

theorem Definitions.column_extend_self {defs : Definitions} {origin : String} {f : Field}
    {xs : List Value} (h : defs.column f origin = some (.list xs)) (items : List Value) :
    (defs.extend origin f items).column f origin = some (.list (xs ++ items)) := by
  obtain ⟨d, hd, hxs⟩ := Option.map_eq_some_iff.mp h
  unfold column
  rw [find?_extend, hd, Option.map_some, Option.map_some, if_pos rfl,
    Note.get_extend_self items (Note.mem_keys_of_list hxs), hxs]
  rfl

/-- What two moments of a merge have in common as far as one field is concerned. -/
structure SameAt (f : Field) (a b : Note × Definitions) : Prop where
  value : b.1.get f = a.1.get f
  column : ∀ id, b.2.column f id = a.2.column f id

theorem SameAt.trans {f : Field} {a b c : Note × Definitions} (h : SameAt f a b)
    (h' : SameAt f b c) : SameAt f a c :=
  ⟨h'.value.trans h.value, fun id => (h'.column id).trans (h.column id)⟩

section Merge

variable {id : String}

/-- Every list in common is known by its own field, and none comes from the definition itself. -/
def Adopts (id : String) (a : Note) (fields : List Field) : Prop :=
  ∀ f ∈ fields, ∀ origin g, a.get f = .shared origin g → g = f ∧ origin ≠ id

/-- Merging one field succeeds, and no other field is affected. -/
theorem mergeField_apart (d : Note) {a : Note} (defs : Definitions) {g : Field}
    (h : ∀ origin e, a.get g = .shared origin e → e = g ∧ origin ≠ id) :
    ∃ x, mergeField id d a defs g = .ok x ∧ x.1.keys = a.keys ∧
      ∀ f, f ≠ g → SameAt f (a, defs) x := by
  have hset : ∀ v, ∃ x, (Except.ok (a.set g v, defs) : Except Unexpandable (Note × Definitions)) =
      .ok x ∧ x.1.keys = a.keys ∧ ∀ f, f ≠ g → SameAt f (a, defs) x := fun v =>
    ⟨_, rfl, Note.keys_set a g v, fun f hf => ⟨Note.get_set_of_ne a v hf, fun _ => rfl⟩⟩
  unfold mergeField
  split
  · exact hset _
  · rename_i origin e ys hx hy
    obtain ⟨rfl, hne⟩ := h origin e hx
    rw [if_neg (by simp [hne])]
    refine ⟨_, rfl, rfl, fun f hf => ⟨rfl, fun r => ?_⟩⟩
    exact Definitions.column_extend_of_ne defs origin r hf ys
  · exact hset _
  · exact hset _
  · exact ⟨_, rfl, rfl, fun f _ => ⟨rfl, fun _ => rfl⟩⟩

theorem Adopts.tail {a b : Note} {g : Field} {fields : List Field} (h : Adopts id a (g :: fields))
    (hg : g ∉ fields) (hb : ∀ f, f ≠ g → b.get f = a.get f) : Adopts id b fields := by
  intro f hf origin e hget
  rw [hb f fun hfg => hg (hfg ▸ hf)] at hget
  exact h f (List.mem_cons_of_mem g hf) origin e hget

/-- Merging fields succeeds, and no other field is affected. -/
theorem mergeFields_apart (d : Note) (fields : List Field) (hnodup : fields.Nodup) (a : Note)
    (defs : Definitions) (h : Adopts id a fields) :
    ∃ x, mergeFields id d a defs fields = .ok x ∧ ∀ f, f ∉ fields → SameAt f (a, defs) x := by
  induction fields generalizing a defs with
  | nil => exact ⟨_, rfl, fun f _ => ⟨rfl, fun _ => rfl⟩⟩
  | cons g fields ih =>
      obtain ⟨hg, hrest⟩ := List.nodup_cons.mp hnodup
      obtain ⟨x, hx, -, hsame⟩ := mergeField_apart d defs (h g List.mem_cons_self)
      obtain ⟨y, hy, hlater⟩ := ih hrest x.1 x.2 (h.tail hg fun f hf => (hsame f hf).value)
      refine ⟨y, ?_, fun f hf => ?_⟩
      · unfold mergeFields
        rw [hx]
        exact hy
      · have hfg : f ≠ g := fun e => hf (e ▸ List.mem_cons_self)
        exact (hsame f hfg).trans (hlater f fun hm => hf (List.mem_cons_of_mem g hm))

/-- **A merge, seen from one field**: there is a moment at which the field is merged, until then it
    is as in the beginning and from then on as in the end. -/
theorem mergeFields_at (d : Note) {f : Field} (fields : List Field) (hnodup : fields.Nodup)
    (hf : f ∈ fields) (a : Note) (defs : Definitions) (h : Adopts id a fields) :
    ∃ x b c, mergeFields id d a defs fields = .ok x ∧ SameAt f (a, defs) b ∧ b.1.keys = a.keys ∧
      mergeField id d b.1 b.2 f = .ok c ∧ SameAt f c x := by
  induction fields generalizing a defs with
  | nil => cases hf
  | cons g fields ih =>
      obtain ⟨hg, hrest⟩ := List.nodup_cons.mp hnodup
      obtain ⟨x, hx, hkeys, hsame⟩ := mergeField_apart d defs (h g List.mem_cons_self)
      have htail : Adopts id x.1 fields := h.tail hg fun f hf => (hsame f hf).value
      unfold mergeFields
      rw [hx]
      rcases List.mem_cons.mp hf with rfl | hm
      · obtain ⟨y, hy, hlater⟩ := mergeFields_apart d fields hrest x.1 x.2 htail
        exact ⟨y, (a, defs), x, hy, ⟨rfl, fun _ => rfl⟩, rfl, hx, hlater f hg⟩
      · obtain ⟨y, b, c, hy, hb, hbk, hc, hcy⟩ := ih hrest hm x.1 x.2 htail
        have hfg : f ≠ g := fun e => hg (e ▸ hm)
        exact ⟨y, b, c, hy, (hsame f hfg).trans hb, hbk.trans hkeys, hc, hcy⟩

end Merge

/-! ## 4. With a clash -/

section Clash

variable {strict : Prop} {C : Custody strict} {k : Kind} {done : List String}

/-- Following the id of a definition of the same kind, seen from one field. -/
theorem followId_at (inner : Expander) (location : String) (chain : List String) {a d : Note}
    {defs : Definitions} {id : String} {f : Field} (ha : UnderWay C k done a) (hI : C.Holds defs)
    (hd : defs.find? id = some d) (hk : d.kind = k) (hchain : id ∉ chain) (hnew : id ∉ done)
    (hf : f ∈ k.fields) :
    ∃ x b c, followId inner location chain a defs id = .ok ⟨x.1, x.2, []⟩ ∧
      UnderWay C k (id :: done) x.1 ∧ C.Holds x.2 ∧ SameAt f (a, defs) b ∧ b.1.keys = a.keys ∧
      mergeField id d b.1 b.2 f = .ok c ∧ SameAt f c x := by
  have hadopts : Adopts id a k.fields := fun g _ origin e hget => by
    obtain ⟨he, ho, -⟩ := ha.adopted hget
    exact ⟨he, fun h => hnew (h ▸ ho)⟩
  obtain ⟨x, b, c, hx, hb, hbk, hc, hcx⟩ :=
    mergeFields_at d k.fields k.fields_nodup hf a defs hadopts
  have hmerge : merge id d a defs = .ok x := by
    unfold merge
    rw [ha.kind_eq]
    exact hx
  have hkept := merge_meets (C.known hI hd) hk ha hI fun _ => hnew
  rw [hmerge] at hkept
  refine ⟨x, b, c, ?_, hkept.1, hkept.2, hb, hbk, hc, hcx⟩
  unfold followId
  rw [hd]
  dsimp only
  rw [if_neg (fun h => hchain (List.contains_iff_mem.mp h)), if_pos (hk.trans ha.kind_eq.symm),
    hmerge]

/-- A field that says nothing gets the definition's list, and no list grows. -/
theorem followId_lends (inner : Expander) (location : String) (chain : List String) {a d : Note}
    {defs : Definitions} {id : String} {f : Field} {xs : List Value} (ha : UnderWay C k done a)
    (hI : C.Holds defs) (hd : defs.find? id = some d) (hk : d.kind = k) (hchain : id ∉ chain)
    (hnew : id ∉ done) (hf : f ∈ k.fields) (hnull : a.get f = .null) (hxs : d.get f = .list xs) :
    ∃ x : Note × Definitions, followId inner location chain a defs id = .ok ⟨x.1, x.2, []⟩ ∧
      UnderWay C k (id :: done) x.1 ∧ C.Holds x.2 ∧ x.1.get f = .shared id f ∧
      ∀ r, x.2.column f r = defs.column f r := by
  obtain ⟨x, b, c, hx, hway, hxI, hb, hbk, hc, hcx⟩ :=
    followId_at inner location chain ha hI hd hk hchain hnew hf
  have hmerged : c = (b.1.set f (.shared id f), b.2) := by
    have hbf : b.1.get f = .null := hb.value.trans hnull
    unfold mergeField at hc
    rw [hbf, hxs] at hc
    exact (Except.ok.inj hc).symm
  subst hmerged
  refine ⟨x, hx, hway, hxI, hcx.value.trans (Note.get_set_self _ ?_), fun r => ?_⟩
  · rw [hbk]
    exact ha.nested.slotted.mem (ha.kind_eq ▸ hf)
  · exact (hcx.column r).trans (hb.column r)

/-- A field that has the list of another definition makes that list grow. -/
theorem followId_extends (inner : Expander) (location : String) (chain : List String) {a d : Note}
    {defs : Definitions} {origin id : String} {f : Field} {xs ys : List Value}
    (ha : UnderWay C k done a) (hI : C.Holds defs) (hd : defs.find? id = some d) (hk : d.kind = k)
    (hchain : id ∉ chain) (hnew : id ∉ done) (hf : f ∈ k.fields)
    (hshared : a.get f = .shared origin f) (hne : origin ≠ id)
    (hxs : defs.column f origin = some (.list xs)) (hys : d.get f = .list ys) :
    ∃ x : Note × Definitions, followId inner location chain a defs id = .ok ⟨x.1, x.2, []⟩ ∧
      UnderWay C k (id :: done) x.1 ∧ C.Holds x.2 ∧
      x.2.column f origin = some (.list (xs ++ ys)) := by
  obtain ⟨x, b, c, hx, hway, hxI, hb, -, hc, hcx⟩ :=
    followId_at inner location chain ha hI hd hk hchain hnew hf
  have hmerged : c = (b.1, b.2.extend origin f ys) := by
    have hbf : b.1.get f = .shared origin f := hb.value.trans hshared
    unfold mergeField at hc
    rw [hbf, hys] at hc
    dsimp only at hc
    rw [if_neg (by simp [hne])] at hc
    exact (Except.ok.inj hc).symm
  subst hmerged
  refine ⟨x, hx, hway, hxI, (hcx.column origin).trans ?_⟩
  exact Definitions.column_extend_self ((hb.column origin).trans hxs) ys

/-- All ids but two. -/
def Definitions.allBut (defs : Definitions) (i j : String) : List String :=
  (defs.map (·.1)).filter fun r => r ≠ i && r ≠ j

theorem Definitions.mem_allBut {defs : Definitions} {i j r : String} :
    r ∈ defs.allBut i j ↔ r ∈ defs.map (·.1) ∧ r ≠ i ∧ r ≠ j := by
  unfold allBut
  rw [List.mem_filter, Bool.and_eq_true, decide_eq_true_eq, decide_eq_true_eq]

theorem Kind.isGroup_of_field {k : Kind} {f : Field} (hf : f ∈ k.fields)
    (hl : f.alwaysList = false) : k.isGroup = false := by
  have h : ∀ f ∈ k.fields, f.alwaysList = false → k.isGroup = false := by cases k <;> decide
  exact h f hf hl

/-- The ids that two references lead to: the two, and then others. -/
theorem queue_pair (defs : Definitions) (chain : List String) (k : Kind) {i j : String}
    (hij : i ≠ j) :
    ∃ rest, queue defs chain (Note.referring k [i, j]) = i :: j :: rest ∧
      i ∉ rest ∧ j ∉ rest := by
  have hnodup : (queue defs chain (Note.referring k [i, j])).Nodup :=
    queue_nodup defs chain (show [i, j].Nodup by simp [hij])
  have hqueue : queue defs chain (Note.referring k [i, j]) =
      queueFrom defs k chain [i, j] [i, j] := rfl
  rw [hqueue, queueFrom, List.singleton_append, queueFrom] at hnodup ⊢
  refine ⟨_, rfl, ?_, ?_⟩
  · exact fun h => (List.nodup_cons.mp hnodup).1 (List.mem_cons_of_mem j h)
  · exact (List.nodup_cons.mp (List.nodup_cons.mp hnodup).2).1

/-- The custody of definitions that may grow. -/
def Definitions.growing (defs : Definitions) : Custody False :=
  orderlyCustody False fun id => (defs.find? id).map (·.kind)

theorem Definitions.growing_holds {defs : Definitions} (hd : defs.Fresh) :
    defs.growing.Holds defs :=
  ⟨fun id d h => (hd.written id d h).mono fun _ hb => ⟨hb, False.elim⟩, fun _ => rfl⟩

/-- An id that is defined at any time was defined from the start, as something of the same kind. -/
theorem Definitions.growing_find? {defs now : Definitions} (h : defs.growing.Holds now)
    {id : String} {d : Note} (hd : now.find? id = some d) :
    ∃ c, defs.find? id = some c ∧ c.kind = d.kind := by
  have hkind := h.2 id
  rw [hd, Option.map_some] at hkind
  exact Option.map_eq_some_iff.mp hkind.symm

/-- The first of two definitions lends its list, the second extends it, and nothing else is
    followed. -/
theorem follow_pair {defs : Definitions} (hd : defs.Fresh) {i j : String} (hij : i ≠ j) {d e : Note}
    (hi : defs.find? i = some d) (hj : defs.find? j = some e) (hk : d.kind = e.kind) {f : Field}
    (hl : f.alwaysList = false) {xs ys : List Value} (hxs : d.get f = .list xs)
    (hys : e.get f = .list ys) (hf : f ∈ d.kind.fields) (inner : Expander) (location : String) :
    ∃ x, followIds inner location (defs.allBut i j) (Note.referring d.kind [i, j]) defs
        (queue defs (defs.allBut i j) (Note.referring d.kind [i, j])) = .ok x ∧
      UnderWay defs.growing d.kind [j, i] x.result ∧ defs.growing.Holds x.definitions ∧
      x.definitions.column f i = some (.list (xs ++ ys)) := by
  have hblank : (Note.referring d.kind [i, j]).Throughout (Note.Orderly False) :=
    .referring d.kind [i, j] False.elim
  have hstart : UnderWay defs.growing d.kind [] (Note.referring d.kind [i, j]) :=
    ⟨rfl, hblank.root.toNested, fun b hb => (hblank.child hb).mono fun _ h => h.ready,
      fun hget => absurd hget (hblank.root.unshared _ _ _)⟩
  have hnull : (Note.referring d.kind [i, j]).get f = .null := by
    refine (Note.get_blank hf).trans ?_
    rw [Field.default, hl]
    rfl
  obtain ⟨x, hx, hxway, hxI, hxf, hxcol⟩ := followId_lends inner location (defs.allBut i j) hstart
    (Definitions.growing_holds hd) hi rfl (fun hm => (Definitions.mem_allBut.mp hm).2.1 rfl)
    List.not_mem_nil hf hnull hxs
  -- the second definition is still what it was, as far as the field is concerned
  have hjcol : x.2.column f j = some (.list ys) := by
    rw [hxcol, Definitions.column, hj, Option.map_some, hys]
  obtain ⟨e', hj', hys'⟩ := Option.map_eq_some_iff.mp hjcol
  have hk' : e'.kind = d.kind := by
    obtain ⟨c, hcj, hck⟩ := Definitions.growing_find? hxI hj'
    rw [hj] at hcj
    rw [← hck, ← Option.some.inj hcj, hk]
  have hicol : x.2.column f i = some (.list xs) := by
    rw [hxcol, Definitions.column, hi, Option.map_some, hxs]
  obtain ⟨y, hy, hyway, hyI, hycol⟩ := followId_extends inner location (defs.allBut i j) hxway hxI
    hj' hk' (fun hm => (Definitions.mem_allBut.mp hm).2.2 rfl)
    (fun hm => hij (List.mem_singleton.mp hm).symm) hf hxf hij hicol hys'
  obtain ⟨rest, hqueue, hirest, hjrest⟩ := queue_pair defs (defs.allBut i j) d.kind hij
  have hgroup : y.1.kind.isGroup = false := by
    rw [hyway.kind_eq]
    exact Kind.isGroup_of_field hf hl
  have hidle : ∃ log, followIds inner location (defs.allBut i j) y.1 y.2 rest =
      .ok ⟨y.1, y.2, log⟩ := by
    refine followIds_idle location inner hgroup rest fun r hr c hc => .inl ?_
    obtain ⟨c', hc', -⟩ := Definitions.growing_find? hyI hc
    refine Definitions.mem_allBut.mpr ⟨?_, fun h => hirest (h ▸ hr), fun h => hjrest (h ▸ hr)⟩
    exact List.mem_map.mpr ⟨_, Definitions.mem_of_find? hc', rfl⟩
  obtain ⟨log, hrest⟩ := hidle
  refine ⟨⟨y.1, y.2, log⟩, ?_, hyway, hyI, hycol⟩
  rw [hqueue, followIds, hx]
  dsimp only
  rw [followIds, hy]
  dsimp only
  rw [hrest]
  rfl

/-- **With a clash there is a run that alters a definition**: that of an annotation which refers to
    the two definitions and is barred from all others. -/
theorem exists_run_of_clash {defs : Definitions} (hd : defs.Fresh) (h : defs.Clash) :
    ∃ location chain a x, a.Throughout Note.Fresh ∧
      expandTo location (expansionDepth defs a) chain defs a = .ok x ∧ x.definitions ≠ defs := by
  obtain ⟨i, j, f, d, e, xs, y, ys, hij, hi, hj, hk, hl, hxs, hys⟩ := h
  have hf : f ∈ d.kind.fields := by
    rw [← (hd.written i d hi).root.slotted.keys_eq]
    exact Note.mem_keys_of_list hxs
  have hgroup := Kind.isGroup_of_field hf hl
  obtain ⟨depth, hdepth, hrank⟩ : ∃ depth,
      expansionDepth defs (Note.referring d.kind [i, j]) = depth + 1 ∧ d.kind.rank ≤ depth := by
    have hlt : d.kind.rank < expansionDepth defs (Note.referring d.kind [i, j]) :=
      rank_lt_expansionDepth defs (Note.referring d.kind [i, j])
    exact ⟨_, (Nat.sub_add_cancel (Nat.zero_lt_of_lt hlt)).symm, Nat.le_sub_one_of_lt hlt⟩
  obtain ⟨x, hx, hway, hI, hcol⟩ := follow_pair hd hij hi hj hk hl hxs hys hf
    (expandTo "" depth) ""
  have hxk := hway.kind_eq
  -- the two are of a higher kind than everything below
  have hbar : ∀ id c, x.definitions.find? id = some c →
      id ∈ defs.allBut i j ∨ d.kind.rank ≤ c.kind.rank := by
    intro id c hc
    obtain ⟨c', hc', hck⟩ := Definitions.growing_find? hI hc
    by_cases hidi : id = i
    · rw [hidi, hi] at hc'
      rw [← hck, Option.some.inj hc']
      exact .inr (Nat.le_refl _)
    by_cases hidj : id = j
    · rw [hidj, hj] at hc'
      rw [← hck, ← Option.some.inj hc', hk]
      exact .inr (Nat.le_refl _)
    have hmem : id ∈ defs.map (·.1) := List.mem_map.mpr ⟨_, Definitions.mem_of_find? hc', rfl⟩
    exact .inl (Definitions.mem_allBut.mpr ⟨hmem, hidi, hidj⟩)
  have hinner : Descends True (· = x.definitions) (·.Throughout Note.Nested) (fun _ => True)
      x.result.kind (expandTo "" depth) (defs.allBut i j) := by
    intro now b hnow hb hasked
    obtain ⟨hbk, hlt⟩ := hasked trivial
    rw [hxk] at hlt
    obtain ⟨z, hz, hzk, hzd⟩ :=
      expandTo_idle "" hbar depth b hbk hb hlt (Nat.lt_of_lt_of_le hlt hrank)
    rw [hnow, hz]
    exact ⟨hzk, trivial, hzd⟩
  have hnested : x.result.Throughout Note.Nested :=
    .intro hway.nested fun b hb => (hway.below b hb).mono fun _ h => h.toNested
  obtain ⟨z, hz, -, hzd⟩ := expandFields_idle (hxk ▸ hgroup) hnested hinner
  rw [hxk] at hz
  refine ⟨"", defs.allBut i j, Note.referring d.kind [i, j],
    ⟨z.result, z.definitions, x.log ++ z.log⟩, ?_, ?_, fun hsame => ?_⟩
  · have horderly : (Note.referring d.kind [i, j]).Throughout (Note.Orderly False) :=
      .referring d.kind [i, j] False.elim
    exact horderly.mono fun _ h => h.toFresh
  · rw [hdepth]
    unfold expandTo
    dsimp only
    rw [hx]
    dsimp only
    have hkind : (Note.referring d.kind [i, j]).kind = d.kind := rfl
    rw [hkind, hxk, hz]
  · have hsame : z.definitions = defs := hsame
    rw [← hzd, hsame, Definitions.column, hi, Option.map_some, hxs] at hcol
    simp at hcol

end Clash

/-! ## 5. The main statement -/

/-- Definitions that are written, and every id once, are fresh. -/
theorem Definitions.Fresh.of_written {defs : Definitions} (h : ∀ e ∈ defs, e.2.Written)
    (hd : defs.Distinct) : defs.Fresh :=
  ⟨hd, fun _ _ hfind => (h _ (Definitions.mem_of_find? hfind)).fresh⟩

/-- The scans of sources, each with its path. -/
def scansOf (files : List (String × List UInt8)) : List FileScan :=
  files.map fun e => FileScan.ofSource e.1 e.2

theorem scansOf_written (files : List (String × List UInt8)) :
    ∀ s ∈ scansOf files, s.registry.Written := by
  intro s hs
  obtain ⟨e, -, rfl⟩ := List.mem_map.mp hs
  exact ofSource_written e.1 e.2

/-- Without a clash the report shows what each annotation of each source comes to on its own. -/
theorem ofScans_alone (files : List (String × List UInt8)) {r : Report}
    (hno : ¬(pool [] (scansOf files)).1.Clash) (hr : Report.ofScans (scansOf files) = .ok r) :
    r.definitions = (pool [] (scansOf files)).1 ∧
      r.resources = (scansOf files).flatMap (fun s =>
        (s.alone (pool [] (scansOf files)).1).resources.map
          (·.settled (pool [] (scansOf files)).1)) ∧
      r.models = (scansOf files).flatMap (fun s =>
        (s.alone (pool [] (scansOf files)).1).models.map
          (·.settled (pool [] (scansOf files)).1)) := by
  have hwritten := scansOf_written files
  obtain ⟨hpool, hdistinct⟩ := pool_written (scansOf files) hwritten [] nofun List.nodup_nil
  have hfresh : (pool [] (scansOf files)).1.Fresh := .of_written hpool hdistinct
  have hcollected : ∀ s ∈ scansOf files, ∀ a ∈ s.registry.collected, a.Throughout Note.Fresh := by
    intro s hs a ha
    rcases List.mem_append.mp ha with ha | ha
    · exact ((hwritten s hs).resources a ha).fresh
    · exact ((hwritten s hs).models a ha).fresh
  unfold Report.ofScans at hr
  dsimp only at hr
  cases hx : finishAll (pool [] (scansOf files)).1 (scansOf files) with
  | error e =>
      rw [hx] at hr
      cases hr
  | ok x =>
      obtain ⟨hxd, hxr, hxm⟩ := finishAll_alone hfresh hno (scansOf files) hcollected hx
      rw [hx] at hr
      cases hr
      refine ⟨hxd, ?_, ?_⟩
      · dsimp only
        rw [hxd, hxr, List.map_flatMap]
      · dsimp only
        rw [hxd, hxm, List.map_flatMap]

/-- **Expansion leaves the definitions alone if and only if no two of them clash.** Without a clash
    no annotation, whatever it descends from, alters a definition, and the report on any sources
    with these definitions shows each annotation as it comes out on its own. With a clash there is
    an annotation that does alter one. -/
theorem definitions_kept_iff_no_clash (defs : Definitions) (hd : defs.Fresh) :
    (¬defs.Clash ↔ ∀ location chain a x, a.Throughout Note.Fresh →
        expandTo location (expansionDepth defs a) chain defs a = .ok x → x.definitions = defs) ∧
      (¬defs.Clash → ∀ files r, (pool [] (scansOf files)).1 = defs →
        Report.ofScans (scansOf files) = .ok r → r.definitions = defs ∧
          r.resources = (scansOf files).flatMap (fun s =>
            (s.alone defs).resources.map (·.settled defs)) ∧
          r.models = (scansOf files).flatMap (fun s =>
            (s.alone defs).models.map (·.settled defs))) := by
  refine ⟨⟨fun hno location chain a x ha hx => expandTo_keeps hd hno ha hx, ?_⟩, ?_⟩
  · intro hkept hclash
    obtain ⟨location, chain, a, x, ha, hx, hne⟩ := exists_run_of_clash hd hclash
    exact hne (hkept location chain a x ha hx)
  · rintro hno files r rfl hr
    exact ofScans_alone files hno hr

/-- Two operations that both say what they produce. -/
def twoProducers : Definitions :=
  [("A", (Note.referring .operation []).set .produces (.list [.text "xml"])),
    ("B", (Note.referring .operation []).set .produces (.list [.text "json"]))]

/-- The two are fresh, and there is an annotation whose expansion alters the first one. -/
theorem clash_of_two_operations :
    twoProducers.Fresh ∧ ¬∀ location chain a x, a.Throughout Note.Fresh →
      expandTo location (expansionDepth twoProducers a) chain twoProducers a = .ok x →
      x.definitions = twoProducers := by
  have hfresh : ∀ vs, ((Note.referring .operation []).set .produces (.list vs)).Throughout
      Note.Fresh := by
    intro vs
    have hset : ((Note.referring .operation []).set .produces (.list vs)).Throughout
        (Note.Orderly True) :=
      .set_list (.referring .operation [] fun _ => List.nodup_nil) vs (by decide)
    exact hset.mono fun _ h => h.toFresh
  have hd : twoProducers.Fresh := by
    refine ⟨show ["A", "B"].Nodup by decide, fun id d h => ?_⟩
    rcases List.mem_cons.mp (Definitions.mem_of_find? h) with heq | hmem
    · cases heq
      exact hfresh _
    · cases List.mem_singleton.mp hmem
      exact hfresh _
  refine ⟨hd, fun hkept => (definitions_kept_iff_no_clash twoProducers hd).1.mpr hkept ?_⟩
  exact ⟨"A", "B", .produces, _, _, [.text "xml"], .text "json", [], by decide, rfl, rfl, rfl, rfl,
    rfl, rfl⟩

end Marginalia
