import Mathlib.Data.List.Forall2
import Marginalia.Proofs.Expansion.Custody
import Marginalia.Proofs.Expansion.OwnWords

/-!
# The course of a run

What a run of expansion does is told here step by step, for all that is to be said about runs that
come to an end:

* `Followed`: the five things that can happen to a reference;
* `Definitions.Alike`: definitions that differ in nothing but the length of lists. Every run leaves
  them so (`alikeCustody`), and what is followed depends on nothing else (`Alike.queue_eq`);
* `Course`: the references of an annotation, followed one after another, with what is known of the
  annotation and of the definitions before each of them;
* `expandTo_spares`: a run changes no definition of a higher kind;
* `expandFields_logs`: what is said about the annotations below is what is said about each of them,
  one after another.
-/

namespace Marginalia

/-! ## 1. One reference -/

/-- **What happens to a reference**: the id is unknown, leads back to itself, is merged, is inserted
    as a copy, or has no place. -/
inductive Followed (inner : Expander) (location : String) (chain : List String) (a : Note)
    (defs : Definitions) (id : String) : Expanded Note → Prop
  | unknown (h : defs.find? id = none) :
      Followed inner location chain a defs id ⟨a, defs, warning (unknownIdMessage id) location⟩
  | circular {d : Note} (hd : defs.find? id = some d) (hc : id ∈ chain) :
      Followed inner location chain a defs id ⟨a, defs, warning (circularMessage id) location⟩
  | merged {d : Note} {m : Note × Definitions} (hd : defs.find? id = some d) (hc : id ∉ chain)
      (hk : d.kind = a.kind) (hm : merge id d a defs = .ok m) :
      Followed inner location chain a defs id ⟨m.1, m.2, []⟩
  | inserted {d : Note} {f : Field} {y : Expanded Note} (hd : defs.find? id = some d)
      (hc : id ∉ chain) (hk : d.kind ≠ a.kind) (hf : a.kind.nestField? d.kind = some f)
      (hg : d.kind.isGroup = false) (hy : inner (chain ++ [id]) defs d.asCopy = .ok y) :
      Followed inner location chain a defs id ⟨a.insert f y.result, y.definitions, y.log⟩
  | refused {d : Note} (hd : defs.find? id = some d) (hc : id ∉ chain) (hk : d.kind ≠ a.kind)
      (hf : ∀ f, a.kind.nestField? d.kind = some f → d.kind.isGroup = true) :
      Followed inner location chain a defs id
        ⟨a, defs, warning (notAllowedMessage id d.kind a.kind) location⟩

theorem followId_followed {inner : Expander} {location : String} {chain : List String} {a : Note}
    {defs : Definitions} {id : String} {x : Expanded Note}
    (h : followId inner location chain a defs id = .ok x) :
    Followed inner location chain a defs id x := by
  unfold followId at h
  split at h
  · rename_i hnone
    cases h
    exact .unknown hnone
  · rename_i d hd
    split at h
    · rename_i hc
      cases h
      exact .circular hd (List.contains_iff_mem.mp hc)
    · rename_i hc
      have hc : id ∉ chain := fun hm => hc (List.contains_iff_mem.mpr hm)
      split at h
      · rename_i hk
        split at h
        · cases h
        · rename_i m now hm
          cases h
          exact .merged hd hc hk hm
      · rename_i hk
        split at h
        · rename_i f hf
          split at h
          · rename_i hg
            cases h
            exact .refused hd hc hk fun _ _ => hg
          · rename_i hg
            split at h
            · cases h
            · rename_i y hy
              cases h
              exact .inserted hd hc hk hf (Bool.eq_false_iff.mpr hg) hy
        · rename_i hf
          cases h
          exact .refused hd hc hk fun f hf' => by rw [hf] at hf'; cases hf'

/-- A whole run: the references, and then what stands in the nest fields. -/
theorem expandTo_parts {location : String} {depth : Nat} {chain : List String} {defs : Definitions}
    {a : Note} {x : Expanded Note} (h : expandTo location (depth + 1) chain defs a = .ok x) :
    ∃ y z, followIds (expandTo location depth) location chain a defs (queue defs chain a) = .ok y ∧
      expandFields (expandTo location depth) chain { y.result with partials := [] } y.definitions
        a.kind.nestFields = .ok z ∧ x = ⟨z.result, z.definitions, y.log ++ z.log⟩ := by
  unfold expandTo at h
  dsimp only at h
  split at h
  · cases h
  · rename_i y hy
    split at h
    · cases h
    · rename_i z hz
      cases h
      exact ⟨y, z, hy, hz, rfl⟩

/-! ## 2. Definitions that are alike -/

/-- **Annotations that are alike**: they differ in nothing but the length of lists, and not in
    those of nested annotations. -/
structure Note.Alike (d e : Note) : Prop where
  kind_eq : e.kind = d.kind
  partialId_eq : e.partialId = d.partialId
  partials_eq : e.partials = d.partials
  nests : ∀ f, f.nests = true → e.get f = d.get f
  lists : ∀ f, e.get f = d.get f ∨ ∃ vs more, d.get f = .list vs ∧ e.get f = .list (vs ++ more)

namespace Note.Alike

theorem refl (d : Note) : d.Alike d := ⟨rfl, rfl, rfl, fun _ _ => rfl, fun _ => .inl rfl⟩

/-- A list of the one is a list of the other. -/
theorem list_iff {d e : Note} (h : d.Alike e) {f : Field} :
    (∃ vs, e.get f = .list vs) ↔ ∃ vs, d.get f = .list vs := by
  rcases h.lists f with heq | ⟨vs, more, hd, he⟩
  · rw [heq]
  · exact ⟨fun _ => ⟨vs, hd⟩, fun _ => ⟨_, he⟩⟩

/-- A list that nests nothing may become longer. -/
theorem extend {d e : Note} (h : d.Alike e) {f : Field} (hf : f.nests = false) {xs : List Value}
    (hxs : e.get f = .list xs) (ys : List Value) : d.Alike (e.extend f ys) where
  kind_eq := h.kind_eq
  partialId_eq := h.partialId_eq
  partials_eq := h.partials_eq
  nests g hg := by
    have hgf : g ≠ f := by
      rintro rfl
      rw [hf] at hg
      cases hg
    rw [Note.get_extend_of_ne e ys hgf]
    exact h.nests g hg
  lists g := by
    by_cases hgf : g = f
    · subst hgf
      have hmem : g ∈ e.keys := Note.mem_keys_of_ne_null (by rw [hxs]; exact nofun)
      rw [Note.get_extend_self ys hmem, hxs]
      rcases h.lists g with heq | ⟨vs, more, hd, he⟩
      · exact .inr ⟨xs, ys, heq.symm.trans hxs, rfl⟩
      · rw [hxs] at he
        cases he
        exact .inr ⟨vs, more ++ ys, hd, congrArg Value.list (List.append_assoc vs more ys)⟩
    · rw [Note.get_extend_of_ne e ys hgf]
      exact h.lists g

end Note.Alike

/-- **Definitions that are alike**, id by id. -/
def Definitions.Alike (defs now : Definitions) : Prop :=
  ∀ id, Option.Rel Note.Alike (defs.find? id) (now.find? id)

namespace Definitions.Alike

variable {defs now : Definitions}

theorem refl (defs : Definitions) : defs.Alike defs := by
  intro id
  cases defs.find? id with
  | none => exact .none
  | some d => exact .some (.refl d)

theorem find? (h : defs.Alike now) {id : String} {e : Note} (he : now.find? id = some e) :
    ∃ d, defs.find? id = some d ∧ d.Alike e := by
  have hid := h id
  rw [he] at hid
  cases hd : defs.find? id with
  | none =>
      rw [hd] at hid
      cases hid
  | some d =>
      rw [hd] at hid
      cases hid with
      | some hde => exact ⟨d, rfl, hde⟩

theorem find?_now (h : defs.Alike now) {id : String} {d : Note} (hd : defs.find? id = some d) :
    ∃ e, now.find? id = some e ∧ d.Alike e := by
  have hid := h id
  rw [hd] at hid
  cases he : now.find? id with
  | none =>
      rw [he] at hid
      cases hid
  | some e =>
      rw [he] at hid
      cases hid with
      | some hde => exact ⟨e, rfl, hde⟩

theorem find?_eq_none (h : defs.Alike now) {id : String} (hn : now.find? id = none) :
    defs.find? id = none := by
  cases hd : defs.find? id with
  | none => rfl
  | some d =>
      obtain ⟨e, he, -⟩ := h.find?_now hd
      rw [hn] at he
      cases he

theorem passedOn_eq (h : defs.Alike now) (k : Kind) (chain : List String) (id : String) :
    passedOn now k chain id = passedOn defs k chain id := by
  unfold passedOn
  cases he : now.find? id with
  | none => rw [h.find?_eq_none he]
  | some e =>
      obtain ⟨d, hd, hde⟩ := h.find? he
      rw [hd]
      dsimp only
      rw [hde.kind_eq, hde.partials_eq]

theorem queueFrom_eq (h : defs.Alike now) (k : Kind) (chain seen waiting : List String) :
    queueFrom now k chain seen waiting = queueFrom defs k chain seen waiting := by
  fun_induction queueFrom now k chain seen waiting with
  | case1 seen => rw [queueFrom]
  | case2 seen id waiting fresh ih =>
      rw [queueFrom, ih]
      unfold fresh
      rw [h.passedOn_eq k chain id]

/-- The same ids are followed. -/
theorem queue_eq (h : defs.Alike now) (chain : List String) (a : Note) :
    queue now chain a = queue defs chain a := h.queueFrom_eq a.kind chain a.partials a.partials

end Definitions.Alike

/-- The custody of definitions that stay alike. -/
def alikeCustody (strict : Prop) (defs : Definitions) : Custody strict where
  Holds now := defs.Alike now ∧
    ∀ id e, now.find? id = some e → e.Throughout (Note.Orderly strict)
  Known id e := (∃ d, defs.find? id = some d ∧ d.Alike e) ∧ e.Throughout (Note.Orderly strict)
  known hI he := ⟨hI.1.find? he, hI.2 _ _ he⟩
  orderly h := h.2
  extended {now id origin d e f xs ys} hI horigin hid hk hf hm hxs hys hself := by
    have hnests : f.nests = false := Bool.eq_false_iff.mpr fun h =>
      hm ((Kind.mem_nestFields hf).mpr h)
    obtain ⟨⟨b, hb, hbe⟩, -⟩ := horigin
    have hextended : ∀ {r c}, r = origin → now.find? r = some c →
        b.Alike (c.extend f ys) ∧ (c.extend f ys).Throughout (Note.Orderly strict) := by
      rintro r c rfl hc
      obtain ⟨b', hb', hbc⟩ := hI.1.find? hc
      rw [hb] at hb'
      cases hb'
      obtain ⟨zs, hzs⟩ := hbc.list_iff.mpr (hbe.list_iff.mp ⟨xs, hxs⟩)
      refine ⟨hbc.extend hnests hzs ys, (hI.2 r c hc).set_list _ fun hm' => ?_⟩
      rw [(Kind.mem_nestFields (Kind.nestFields_subset hm')).mp hm'] at hnests
      cases hnests
    refine ⟨fun r => ?_, fun r c hc => ?_⟩
    · rw [Definitions.find?_extend]
      by_cases hr : r = origin
      · obtain ⟨c, hc, hbc⟩ := hI.1.find?_now hb
        rw [hr, hb, hc, Option.map_some, if_pos rfl]
        exact .some (hextended rfl hc).1
      · simp only [if_neg hr, Option.map_id']
        exact hI.1 r
    · rw [Definitions.find?_extend] at hc
      obtain ⟨c', hc', rfl⟩ := Option.map_eq_some_iff.mp hc
      split
      · rename_i hr
        exact (hextended hr hc').2
      · exact hI.2 r c' hc'

/-- The definitions are alike to begin with. -/
theorem alikeCustody_holds {strict : Prop} {defs : Definitions}
    (h : ∀ id d, defs.find? id = some d → d.Throughout (Note.Orderly strict)) :
    (alikeCustody strict defs).Holds defs := ⟨.refl defs, h⟩

/-! ## 3. References one after another -/

/-- **The references of an annotation, followed one after another**, with what is known of the
    annotation and of the definitions before each of them. The logs are those of the references. -/
inductive Course (base : Definitions) (inner : Expander) (location : String) (chain : List String)
    (k : Kind) : List String → Note → Definitions → List String → Note → Definitions → List Log →
      Prop
  | nil {done : List String} {a : Note} {defs : Definitions}
      (way : UnderWay (alikeCustody False base) k done a)
      (holds : (alikeCustody False base).Holds defs) :
      Course base inner location chain k done a defs [] a defs []
  | cons {done : List String} {a : Note} {defs : Definitions} {id : String} {ids : List String}
      {x : Expanded Note} {b : Note} {last : Definitions} {logs : List Log}
      (way : UnderWay (alikeCustody False base) k done a)
      (holds : (alikeCustody False base).Holds defs)
      (step : Followed inner location chain a defs id x)
      (rest : Course base inner location chain k (id :: done) x.result x.definitions ids b last
        logs) :
      Course base inner location chain k done a defs (id :: ids) b last (x.log :: logs)

section Course

variable {base : Definitions} {inner : Expander} {location : String} {chain : List String}
  {k : Kind} {done ids : List String} {a b : Note} {defs last : Definitions} {logs : List Log}

theorem followIds_course (hinner : Serves (alikeCustody False base) k inner)
    (ha : UnderWay (alikeCustody False base) k done a)
    (hI : (alikeCustody False base).Holds defs) {x : Expanded Note}
    (h : followIds inner location chain a defs ids = .ok x) :
    ∃ logs, Course base inner location chain k done a defs ids x.result x.definitions logs ∧
      x.log = logs.flatten := by
  induction ids generalizing done a defs x with
  | nil =>
      cases h
      exact ⟨[], .nil ha hI, rfl⟩
  | cons id ids ih =>
      have hstep : Meets False (fun x => UnderWay _ k (id :: done) x.result ∧ _)
          (followId inner location chain a defs id) :=
        followId_meets hinner False.elim location chain ha hI False.elim
      unfold followIds at h
      split at h
      · cases h
      · rename_i y hy
        rw [hy] at hstep
        split at h
        · cases h
        · rename_i z hz
          cases h
          obtain ⟨logs, hcourse, hlog⟩ := ih hstep.1 hstep.2 hz
          refine ⟨y.log :: logs, .cons ha hI (followId_followed hy) hcourse, ?_⟩
          rw [List.flatten_cons, ← hlog]

theorem Course.underWay (h : Course base inner location chain k done a defs ids b last logs) :
    UnderWay (alikeCustody False base) k done a ∧ (alikeCustody False base).Holds defs := by
  cases h with
  | nil way holds => exact ⟨way, holds⟩
  | cons way holds step rest => exact ⟨way, holds⟩

theorem Course.ends (h : Course base inner location chain k done a defs ids b last logs) :
    ∃ done', UnderWay (alikeCustody False base) k done' b ∧
      (alikeCustody False base).Holds last := by
  induction h with
  | nil way holds => exact ⟨_, way, holds⟩
  | cons way holds step rest ih => exact ih

/-- A definition of which a list was taken is still there, and of the kind. -/
theorem kind_of_lends {origin : String} {f : Field}
    (hI : (alikeCustody False base).Holds defs)
    (h : (alikeCustody False base).Lends k f origin) :
    ∃ e xs, defs.find? origin = some e ∧ e.kind = k ∧ e.get f = .list xs := by
  obtain ⟨e, xs, ⟨⟨d, hd, hde⟩, -⟩, hek, hxs⟩ := h
  obtain ⟨c, hc, hdc⟩ := hI.1.find?_now hd
  obtain ⟨zs, hzs⟩ := hdc.list_iff.mpr (hde.list_iff.mp ⟨xs, hxs⟩)
  exact ⟨c, zs, hc, hdc.kind_eq.trans (hde.kind_eq.symm.trans hek), hzs⟩

end Course

/-! ## 4. What stands below, one after another -/

theorem exists_mem_of_forall₂ {α β : Type} {R : α → β → Prop} {xs : List α} {ys : List β}
    (h : List.Forall₂ R xs ys) {y : β} (hy : y ∈ ys) : ∃ x ∈ xs, R x y := by
  induction h with
  | nil => cases hy
  | cons hfirst _ ih =>
      rcases List.mem_cons.mp hy with rfl | hy
      · exact ⟨_, List.mem_cons_self, hfirst⟩
      · obtain ⟨x, hx, hR⟩ := ih hy
        exact ⟨x, List.mem_cons_of_mem _ hx, hR⟩

section Below

variable {inner : Expander} {chain : List String} {I : Definitions → Prop} {P : Note → Log → Prop}

theorem expandItems_logs (vs : List Value) {defs : Definitions} {x : Expanded (List Value)}
    (hinner : ∀ b, .note b ∈ vs → ∀ {now y}, I now → inner chain now b = .ok y →
      I y.definitions ∧ P b y.log)
    (hI : I defs) (h : expandItems inner chain defs vs = .ok x) :
    I x.definitions ∧ ∃ logs, List.Forall₂ P (Value.list vs).notes logs ∧
      x.log = logs.flatten := by
  induction vs generalizing defs x with
  | nil =>
      cases h
      exact ⟨hI, [], .nil, rfl⟩
  | cons v vs ih =>
      unfold expandItems at h
      split at h
      · rename_i b
        split at h
        · cases h
        · rename_i y hy
          split at h
          · cases h
          · rename_i z hz
            cases h
            obtain ⟨hyI, hP⟩ := hinner b List.mem_cons_self hI hy
            obtain ⟨hzI, logs, hlogs, hflat⟩ :=
              ih (fun c hc => hinner c (List.mem_cons_of_mem _ hc)) hyI hz
            refine ⟨hzI, y.log :: logs, .cons hP hlogs, ?_⟩
            rw [List.flatten_cons, ← hflat]
      · cases h

theorem expandField_logs {a : Note} {f : Field} {defs : Definitions} {x : Expanded Note}
    (hinner : ∀ b ∈ (a.get f).notes, ∀ {now y}, I now → inner chain now b = .ok y →
      I y.definitions ∧ P b y.log)
    (hI : I defs) (h : expandField inner chain a defs f = .ok x) :
    I x.definitions ∧ (∀ g, g ≠ f → x.result.get g = a.get g) ∧
      ∃ logs, List.Forall₂ P (a.get f).notes logs ∧ x.log = logs.flatten := by
  unfold expandField at h
  split at h
  · rename_i vs hvs
    rw [hvs] at hinner ⊢
    split at h
    · cases h
    · rename_i y hy
      cases h
      obtain ⟨hyI, hlogs⟩ := expandItems_logs vs
        (fun b hb => hinner b (Value.mem_notes_list.mpr hb)) hI hy
      exact ⟨hyI, fun g hg => Note.get_set_of_ne a _ hg, hlogs⟩
  · rename_i child hchild
    rw [hchild] at hinner ⊢
    split at h
    · cases h
    · rename_i y hy
      cases h
      obtain ⟨hyI, hP⟩ := hinner child (Value.mem_notes_note.mpr rfl) hI hy
      refine ⟨hyI, fun g hg => Note.get_set_of_ne a _ hg, [y.log], .cons hP .nil, ?_⟩
      rw [List.flatten_cons, List.flatten_nil, List.append_nil]
  · rename_i hlist hnote
    cases h
    rw [Value.notes_eq_nil hlist hnote]
    exact ⟨hI, fun _ _ => rfl, [], .nil, rfl⟩

/-- **What is said about the annotations in nest fields** is what is said about each of them, one
    after another. -/
theorem expandFields_logs (fields : List Field) (hnodup : fields.Nodup) {a : Note}
    {defs : Definitions} {x : Expanded Note}
    (hinner : ∀ f ∈ fields, ∀ b ∈ (a.get f).notes, ∀ {now y}, I now →
      inner chain now b = .ok y → I y.definitions ∧ P b y.log)
    (hI : I defs) (h : expandFields inner chain a defs fields = .ok x) :
    I x.definitions ∧ ∃ logs, List.Forall₂ P (fields.flatMap fun f => (a.get f).notes) logs ∧
      x.log = logs.flatten := by
  induction fields generalizing a defs x with
  | nil =>
      cases h
      exact ⟨hI, [], .nil, rfl⟩
  | cons f fields ih =>
      obtain ⟨hnot, hrest⟩ := List.nodup_cons.mp hnodup
      unfold expandFields at h
      split at h
      · cases h
      · rename_i y hy
        split at h
        · cases h
        · rename_i z hz
          cases h
          obtain ⟨hyI, hothers, logs, hlogs, hflat⟩ :=
            expandField_logs (fun b hb => hinner f List.mem_cons_self b hb) hI hy
          have hsame : ∀ g ∈ fields, y.result.get g = a.get g := fun g hg =>
            hothers g fun e => hnot (e ▸ hg)
          obtain ⟨hzI, more, hmore, hzflat⟩ := ih hrest (fun g hg b hb => by
            rw [hsame g hg] at hb
            exact hinner g (List.mem_cons_of_mem f hg) b hb) hyI hz
          have hnotes : (fields.flatMap fun g => (y.result.get g).notes) =
              fields.flatMap fun g => (a.get g).notes :=
            List.flatMap_congr fun g hg => by rw [hsame g hg]
          rw [hnotes] at hmore
          refine ⟨hzI, logs ++ more, ?_, ?_⟩
          · rw [List.flatMap_cons]
            exact List.rel_append hlogs hmore
          · rw [List.flatten_append, ← hflat, ← hzflat]

end Below

/-! ## 5. Definitions of higher kinds -/

/-- Definitions of high rank are left as they are. -/
def Definitions.Spared (n : Nat) (defs now : Definitions) : Prop :=
  ∀ id d, defs.find? id = some d → n ≤ d.kind.rank → now.find? id = some d

theorem Definitions.Spared.refl (n : Nat) (defs : Definitions) : defs.Spared n defs :=
  fun _ _ hd _ => hd

theorem Definitions.Spared.trans {n : Nat} {defs now later : Definitions} (h : defs.Spared n now)
    (h' : now.Spared n later) : defs.Spared n later :=
  fun id d hd hn => h' id d (h id d hd hn) hn

/-- Every list that an annotation has in common with a definition is that of one of a kind. -/
def Note.Borrows (defs : Definitions) (k : Kind) (a : Note) : Prop :=
  ∀ f origin g, a.get f = .shared origin g → (defs.find? origin).map (·.kind) = some k

section Spare

variable {n : Nat} {k : Kind} {base : Definitions} {inner : Expander} {location : String}
  {chain : List String}

/-- Merging extends lists of definitions of the kind only. -/
theorem mergeField_spares {id : String} {d a b : Note} {defs now : Definitions} {f : Field}
    (hn : k.rank < n) (hd : (defs.find? id).map (·.kind) = some k) (hu : d.Unshared)
    (ha : a.Borrows defs k) (h : mergeField id d a defs f = .ok (b, now)) :
    defs.Spared n now ∧ b.Borrows now k := by
  have hset : ∀ v, (∀ origin g, v = .shared origin g →
      (defs.find? origin).map (·.kind) = some k) → (a.set f v).Borrows defs k := by
    intro v hv g origin e hget
    rcases a.get_set_cases f g v with hnew | hold
    · exact hv origin e (hnew.symm.trans hget)
    · exact ha g origin e (hold.symm.trans hget)
  unfold mergeField at h
  split at h
  · cases h
    exact ⟨.refl n defs, hset _ nofun⟩
  · rename_i origin g ys hx hy
    split at h
    · cases h
    · cases h
      have hkinds := (Definitions.Grown.extend defs origin g ys).kinds
      refine ⟨fun r e he hr => ?_, fun g' o g'' hget => (hkinds o).trans (ha g' o g'' hget)⟩
      have hne : r ≠ origin := by
        rintro rfl
        have hkind := ha f r g hx
        rw [he] at hkind
        have hek : e.kind = k := Option.some.inj hkind
        rw [hek] at hr
        omega
      rw [Definitions.find?_extend, he, Option.map_some, if_neg hne]
  · cases h
    refine ⟨.refl n defs, hset _ fun origin g hs => ?_⟩
    cases hs
    exact hd
  · cases h
    exact ⟨.refl n defs, hset _ fun origin g hs => absurd hs (hu f origin g)⟩
  · cases h
    exact ⟨.refl n defs, ha⟩

theorem mergeFields_spares {id : String} {d : Note} (hn : k.rank < n) (hu : d.Unshared)
    (fields : List Field) {a b : Note} {defs now : Definitions}
    (hd : (defs.find? id).map (·.kind) = some k) (ha : a.Borrows defs k)
    (h : mergeFields id d a defs fields = .ok (b, now)) : defs.Spared n now := by
  induction fields generalizing a defs with
  | nil =>
      cases h
      exact .refl n _
  | cons f fields ih =>
      unfold mergeFields at h
      split at h
      · cases h
      · rename_i c later hc
        obtain ⟨hspared, hborrows⟩ := mergeField_spares hn hd hu ha hc
        have hkind := ((mergeField_retains hc).grown.kinds id).trans hd
        exact hspared.trans (ih hkind hborrows h)

/-- What is asked of the expander of the annotations below: that it leaves alone what is higher
    than they are. -/
def Sparing (base : Definitions) (n : Nat) (inner : Expander) : Prop :=
  ∀ {chain now b y}, (alikeCustody False base).Holds now → b.Throughout (Note.Ready False) →
    b.kind.isGroup = false → b.kind.rank < n → inner chain now b = .ok y →
      now.Spared n y.definitions

theorem Course.spares (hinner : Sparing base n inner) (hk : k.isGroup = false) (hn : k.rank < n)
    {done ids : List String} {a b : Note} {defs last : Definitions} {logs : List Log}
    (h : Course base inner location chain k done a defs ids b last logs) :
    defs.Spared n last := by
  induction h with
  | nil way holds => exact .refl n _
  | @cons done a defs id ids x b last logs way holds step rest ih =>
      refine Definitions.Spared.trans ?_ ih
      cases step with
      | unknown h => exact .refl n _
      | circular hd hc => exact .refl n _
      | @merged d m hd hc hdk hm =>
          have hkind : (defs.find? id).map (·.kind) = some k := by
            rw [hd, Option.map_some, hdk, way.kind_eq]
          refine mergeFields_spares hn (holds.2 id d hd).root.unshared _ hkind ?_ hm
          intro f origin g hget
          obtain ⟨e, xs, he, hek, -⟩ := kind_of_lends holds (way.adopted hget).2.2
          rw [he, Option.map_some, hek]
      | @inserted d f y hd hc hdk hf hg hy =>
          have hlt := Kind.rank_lt_of_nestField? (way.kind_eq ▸ hk) hg hf
          rw [way.kind_eq] at hlt
          have hready := Custody.ready_copy ((alikeCustody False base).known holds hd)
          have hspared := hinner holds hready hg (Nat.lt_trans hlt hn) hy
          exact hspared
      | refused hd hc hdk hf => exact .refl n _

end Spare

/-- What an expander of a depth does for annotations of any kind. -/
theorem expandTo_serves (base : Definitions) (location : String) (depth : Nat) (k : Kind) :
    Serves (alikeCustody False base) k (expandTo location depth) :=
  fun chain now b hI hb _ => expandTo_meets _ location depth chain now b hI hb False.elim

/-- What comes out of a run on an annotation that is ready. -/
theorem expandTo_settles {base defs : Definitions} {location : String} {depth : Nat}
    {chain : List String} {a : Note} {x : Expanded Note}
    (hI : (alikeCustody False base).Holds defs) (ha : a.Throughout (Note.Ready False))
    (h : expandTo location depth chain defs a = .ok x) :
    x.result.kind = a.kind ∧ x.result.Throughout Note.Settled ∧
      (alikeCustody False base).Holds x.definitions := by
  have hrun := expandTo_meets (alikeCustody False base) location depth chain defs a hI ha
    False.elim
  rw [h] at hrun
  exact hrun

/-- **A run comes to an end** outside of groups, if no annotation refers to one id twice. -/
theorem exists_expandTo {defs : Definitions} {a : Note} {depth : Nat} (location : String)
    (chain : List String)
    (hdefs : ∀ id d, defs.find? id = some d → d.Throughout (Note.Orderly True))
    (ha : a.Throughout (Note.Orderly True)) (hk : a.kind.isGroup = false)
    (hdepth : a.kind.rank < depth) : ∃ x, expandTo location depth chain defs a = .ok x := by
  have hrun := expandTo_meets (alikeCustody True defs) location depth chain defs a
    (alikeCustody_holds hdefs) (ha.mono fun _ h => h.ready) fun _ => ⟨hk, hdepth⟩
  cases hx : expandTo location depth chain defs a with
  | error e =>
      rw [hx] at hrun
      exact absurd trivial hrun
  | ok x => exact ⟨x, rfl⟩

/-- An annotation as it was written, before any reference has been followed. -/
theorem UnderWay.start {strict : Prop} {C : Custody strict} {a : Note}
    (ha : a.Throughout (Note.Ready strict)) (h : a.Orderly strict) : UnderWay C a.kind [] a :=
  ⟨rfl, ha.root.toNested, fun _ hb => ha.child hb, fun hget => absurd hget (h.unshared _ _ _)⟩

/-- The references of an annotation that is ready, followed: their course, and the annotation before
    its nest fields are expanded. -/
theorem followQueue_course {base defs : Definitions} {location : String} {depth : Nat}
    {chain : List String} {a : Note} {y : Expanded Note}
    (hI : (alikeCustody False base).Holds defs) (ha : a.Throughout (Note.Ready False))
    (h : followIds (expandTo location depth) location chain a defs (queue defs chain a) = .ok y) :
    ∃ logs, (a.partials = [] ∧ y.result = a ∧ y.definitions = defs ∧ logs = [] ∨
        Course base (expandTo location depth) location chain a.kind [] a defs
          (queue base chain a) y.result y.definitions logs) ∧
      y.result.kind = a.kind ∧ y.result.Nested ∧
      (∀ c ∈ y.result.children, c.Throughout (Note.Ready False)) ∧
      (alikeCustody False base).Holds y.definitions ∧ y.log = logs.flatten := by
  rcases ha.root.orderly with hnil | horderly
  · rw [queue_of_partials_nil defs chain hnil] at h
    cases h
    exact ⟨[], .inl ⟨hnil, rfl, rfl, rfl⟩, rfl, ha.root.toNested, fun c hc => ha.child hc, hI, rfl⟩
  · obtain ⟨logs, hcourse, hlog⟩ :=
      followIds_course (expandTo_serves base location depth a.kind) (.start ha horderly) hI h
    obtain ⟨done, hway, hnow⟩ := hcourse.ends
    rw [hI.1.queue_eq] at hcourse
    exact ⟨logs, .inr hcourse, hway.kind_eq, hway.nested, hway.below, hnow, hlog⟩

/-- **A run taken apart**: the course of the references, and the annotation before its nest fields
    are expanded. -/
theorem expandTo_course {base defs : Definitions} {location : String} {depth : Nat}
    {chain : List String} {a : Note} {x : Expanded Note}
    (hI : (alikeCustody False base).Holds defs) (ha : a.Throughout (Note.Ready False))
    (h : expandTo location (depth + 1) chain defs a = .ok x) :
    ∃ b now logs z, (a.partials = [] ∧ b = a ∧ now = defs ∧ logs = [] ∨
        Course base (expandTo location depth) location chain a.kind [] a defs
          (queue base chain a) b now logs) ∧
      b.kind = a.kind ∧ b.Nested ∧ (∀ c ∈ b.children, c.Throughout (Note.Ready False)) ∧
      (alikeCustody False base).Holds now ∧
      expandFields (expandTo location depth) chain { b with partials := [] } now
        a.kind.nestFields = .ok z ∧
      x = ⟨z.result, z.definitions, logs.flatten ++ z.log⟩ := by
  obtain ⟨y, z, hy, hz, hx⟩ := expandTo_parts h
  obtain ⟨logs, hcourse, hk, hnested, hbelow, hnow, hlog⟩ := followQueue_course hI ha hy
  rw [hlog] at hx
  exact ⟨y.result, y.definitions, logs, z, hcourse, hk, hnested, hbelow, hnow, hz, hx⟩

/-- **A run leaves the definitions of higher kinds as they are.** -/
theorem expandTo_spares (base : Definitions) (location : String) (depth : Nat) (n : Nat) :
    Sparing base n (expandTo location depth) := by
  induction depth with
  | zero =>
      intro chain now b y _ _ _ _ h
      cases h
  | succ depth ih =>
      intro chain defs a x hI ha hk hn h
      obtain ⟨b, now, logs, z, hcourse, hbk, hbn, hbelow, hnow, hz, rfl⟩ :=
        expandTo_course hI ha h
      have hfirst : defs.Spared n now := by
        rcases hcourse with ⟨-, -, rfl, -⟩ | hcourse
        · exact .refl n _
        · exact hcourse.spares ih hk hn
      have hdown := expandFields_logs (P := fun _ _ => True)
        (I := fun later => (alikeCustody False base).Holds later ∧ now.Spared n later)
        a.kind.nestFields a.kind.nestFields_nodup (fun f hf c hc later y hlater hy => by
          have hchild : c ∈ b.children := Note.mem_children.mpr ⟨f, hbk ▸ hf, hc⟩
          obtain ⟨hck, hlt⟩ := hbn.kind_of_child (hbk ▸ hk) hchild
          rw [hbk] at hlt
          have hready := hbelow c hchild
          have hspared := ih hlater.1 hready hck (Nat.lt_trans hlt hn) hy
          exact ⟨⟨(expandTo_settles hlater.1 hready hy).2.2, hlater.2.trans hspared⟩, trivial⟩)
        ⟨hnow, .refl n now⟩ hz
      exact hfirst.trans hdown.1.2

end Marginalia
