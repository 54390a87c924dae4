import Mathlib.Data.List.Perm.Basic
import Marginalia.Proofs.Expansion.Below

/-!
# Steps that commute

Expansion goes through fields twice: it merges the fields of a definition one after another, and it
expands the nest fields of an annotation one after another. In both cases the order does not matter:

* merging a field touches this field alone, of the annotation or of the definition whose list it
  has (`Touch`), so that the fields of a definition are merged in any order, and those that say
  nothing may be left out (`mergeFields_eq_of_said`);
* the annotations in two nest fields of one annotation have nothing to do with each other, as one of
  the fields holds annotations without lists and without anything below. Expanding these changes no
  definition and comes to the same at any time (`Inert`), so that nest fields are expanded in any
  order (`expandFields_perm`). The logs come in another order then (`SameOutcome`).
-/

namespace Marginalia

/-! ## 1. The same outcome -/

/-- **Two runs come to the same**: to the same result and the same definitions, with the same to say
    in some order; or both are refused. -/
def SameOutcome {α : Type} : Except Unexpandable (Expanded α) →
    Except Unexpandable (Expanded α) → Prop
  | .ok x, .ok y => x.result = y.result ∧ x.definitions = y.definitions ∧ x.log.Perm y.log
  | .error _, .error _ => True
  | _, _ => False

namespace SameOutcome

variable {α : Type} {p q r : Except Unexpandable (Expanded α)}

theorem refl (p : Except Unexpandable (Expanded α)) : SameOutcome p p := by
  cases p with
  | error e => trivial
  | ok x => exact ⟨rfl, rfl, .refl _⟩

theorem symm (h : SameOutcome p q) : SameOutcome q p := by
  cases p with
  | error e =>
      cases q with
      | error e' => trivial
      | ok y => exact h
  | ok x =>
      cases q with
      | error e' => exact h
      | ok y => exact ⟨h.1.symm, h.2.1.symm, h.2.2.symm⟩

theorem trans (h : SameOutcome p q) (h' : SameOutcome q r) : SameOutcome p r := by
  cases p with
  | error e =>
      cases q with
      | error e' => cases r with
        | error e'' => trivial
        | ok z => exact h'
      | ok y => exact h.elim
  | ok x =>
      cases q with
      | error e' => exact h.elim
      | ok y =>
          cases r with
          | error e'' => exact h'
          | ok z => exact ⟨h.1.trans h'.1, h.2.1.trans h'.2.1, h.2.2.trans h'.2.2⟩

/-- Where one of two runs returns, the other one does. -/
theorem exists_ok (h : SameOutcome p q) (hq : ∃ y, q = .ok y) : ∃ x, p = .ok x := by
  obtain ⟨y, rfl⟩ := hq
  cases p with
  | error e => exact h.elim
  | ok x => exact ⟨x, rfl⟩

end SameOutcome

/-- One part of an expansion after another: the second goes on with what the first has produced, and
    has its say behind it. -/
def andThen {α β : Type} (first : Except Unexpandable (Expanded α))
    (next : α → Definitions → Except Unexpandable (Expanded β)) :
    Except Unexpandable (Expanded β) :=
  match first with
  | .error e => .error e
  | .ok x => match next x.result x.definitions with
    | .error e => .error e
    | .ok y => .ok ⟨y.result, y.definitions, x.log ++ y.log⟩

/-- What has been produced, made into something else. -/
def mapResult {α β : Type} (make : α → β) (p : Except Unexpandable (Expanded α)) :
    Except Unexpandable (Expanded β) :=
  p.map fun x => ⟨make x.result, x.definitions, x.log⟩

section Sequence

variable {α β : Type} {p q : Except Unexpandable (Expanded α)}

/-- Parts that come to the same, one after another, come to the same. -/
theorem SameOutcome.andThen {f g : α → Definitions → Except Unexpandable (Expanded β)}
    (h : SameOutcome p q)
    (hnext : ∀ x, q = .ok x → SameOutcome (f x.result x.definitions) (g x.result x.definitions)) :
    SameOutcome (andThen p f) (andThen q g) := by
  cases p with
  | error e =>
      cases q with
      | error e' => trivial
      | ok y => exact h.elim
  | ok x =>
      cases q with
      | error e' => exact h.elim
      | ok y =>
          obtain ⟨hresult, hdefs, hlog⟩ := h
          have hrest := hnext y rfl
          unfold Marginalia.andThen
          dsimp only
          rw [hresult, hdefs]
          cases hf : f y.result y.definitions with
          | error e =>
              rw [hf] at hrest
              cases hg : g y.result y.definitions with
              | error e' => trivial
              | ok z =>
                  rw [hg] at hrest
                  exact hrest.elim
          | ok u =>
              rw [hf] at hrest
              cases hg : g y.result y.definitions with
              | error e' =>
                  rw [hg] at hrest
                  exact hrest.elim
              | ok z =>
                  rw [hg] at hrest
                  exact ⟨hrest.1, hrest.2.1, hlog.append hrest.2.2⟩

theorem SameOutcome.mapResult {make : α → β} (h : SameOutcome p q) :
    SameOutcome (mapResult make p) (mapResult make q) := by
  cases p with
  | error e =>
      cases q with
      | error e' => trivial
      | ok y => exact h.elim
  | ok x =>
      cases q with
      | error e' => exact h.elim
      | ok y => exact ⟨congrArg make h.1, h.2.1, h.2.2⟩

end Sequence

theorem followIds_cons_eq (inner : Expander) (location : String) (chain : List String) (a : Note)
    (defs : Definitions) (id : String) (ids : List String) :
    followIds inner location chain a defs (id :: ids) =
      andThen (followId inner location chain a defs id)
        fun b now => followIds inner location chain b now ids := by
  rw [followIds]
  unfold andThen
  cases followId inner location chain a defs id with
  | error e => rfl
  | ok x =>
      dsimp only
      cases followIds inner location chain x.result x.definitions ids with
      | error e => rfl
      | ok y => rfl

theorem expandFields_cons_eq (inner : Expander) (chain : List String) (a : Note)
    (defs : Definitions) (f : Field) (fields : List Field) :
    expandFields inner chain a defs (f :: fields) =
      andThen (expandField inner chain a defs f)
        fun b now => expandFields inner chain b now fields := by
  rw [expandFields]
  unfold andThen
  cases expandField inner chain a defs f with
  | error e => rfl
  | ok x =>
      dsimp only
      cases expandFields inner chain x.result x.definitions fields with
      | error e => rfl
      | ok y => rfl

theorem expandItems_cons_eq (inner : Expander) (chain : List String) (defs : Definitions) (b : Note)
    (vs : List Value) :
    expandItems inner chain defs (.note b :: vs) =
      andThen (inner chain defs b)
        fun c now => mapResult (.note c :: ·) (expandItems inner chain now vs) := by
  rw [expandItems]
  unfold andThen mapResult
  cases inner chain defs b with
  | error e => rfl
  | ok x =>
      dsimp only
      cases expandItems inner chain x.definitions vs with
      | error e => rfl
      | ok y => rfl

theorem expandTo_succ_eq (location : String) (depth : Nat) (chain : List String)
    (defs : Definitions) (a : Note) :
    expandTo location (depth + 1) chain defs a =
      andThen (followIds (expandTo location depth) location chain a defs (queue defs chain a))
        fun b now => expandFields (expandTo location depth) chain { b with partials := [] } now
          a.kind.nestFields := by
  rw [expandTo]
  unfold andThen
  dsimp only
  cases followIds (expandTo location depth) location chain a defs (queue defs chain a) with
  | error e => rfl
  | ok x =>
      dsimp only
      cases expandFields (expandTo location depth) chain { x.result with partials := [] }
          x.definitions a.kind.nestFields with
      | error e => rfl
      | ok y => rfl

/-! ## 2. Merging in any order -/

theorem Note.set_comm (a : Note) {f g : Field} (h : f ≠ g) (v w : Value) :
    (a.set f v).set g w = (a.set g w).set f v := by
  obtain ⟨kind, id, refs, fields⟩ := a
  unfold Note.set
  congr 1
  rw [List.map_map, List.map_map]
  refine List.map_congr_left fun e _ => ?_
  by_cases hf : e.1 = f
  · simp [hf, h]
  · by_cases hg : e.1 = g
    · simp [hg, h.symm]
    · simp [hf, hg]

theorem Note.extend_comm (a : Note) {f g : Field} (h : f ≠ g) (xs ys : List Value) :
    (a.extend f xs).extend g ys = (a.extend g ys).extend f xs := by
  have hf := Note.get_extend_of_ne a ys h
  have hg := Note.get_extend_of_ne a xs h.symm
  unfold Note.extend at hf hg ⊢
  rw [hg, hf, Note.set_comm a h]

theorem Definitions.extend_comm (defs : Definitions) (i j : String) {f g : Field} (h : f ≠ g)
    (xs ys : List Value) :
    (defs.extend i f xs).extend j g ys = (defs.extend j g ys).extend i f xs := by
  unfold Definitions.extend
  rw [List.map_map, List.map_map]
  refine List.map_congr_left fun e _ => ?_
  have hnote := e.2.extend_comm h xs ys
  unfold Note.extend at hnote
  by_cases hi : e.1 = i
  · by_cases hj : e.1 = j
    · simp [← hi, ← hj, hnote]
    · simp [hi, show i ≠ j from fun h => hj (hi.trans h)]
  · by_cases hj : e.1 = j
    · simp [hj, show j ≠ i from fun h => hi (hj.trans h)]
    · simp [hi, hj]

/-- What merging a field does: it changes the field of the annotation, or a list of a definition, or
    nothing. -/
inductive Touch where
  | set (v : Value)
  | extend (origin : String) (items : List Value)
  | nothing

/-- The annotation and the definitions after a field was merged. -/
def Touch.apply (f : Field) : Touch → Note × Definitions → Note × Definitions
  | .set v, s => (s.1.set f v, s.2)
  | .extend origin items, s => (s.1, s.2.extend origin f items)
  | .nothing, s => s

theorem Touch.apply_get (t : Touch) {f g : Field} (h : g ≠ f) (s : Note × Definitions) :
    (t.apply f s).1.get g = s.1.get g := by
  cases t with
  | set v => exact Note.get_set_of_ne s.1 v h
  | extend origin items => rfl
  | nothing => rfl

theorem Touch.apply_comm (t u : Touch) {f g : Field} (h : f ≠ g) (s : Note × Definitions) :
    u.apply g (t.apply f s) = t.apply f (u.apply g s) := by
  cases t with
  | set v =>
      cases u with
      | set w => exact Prod.ext (s.1.set_comm h v w) rfl
      | extend _ _ => rfl
      | nothing => rfl
  | extend i xs =>
      cases u with
      | set w => rfl
      | extend j ys => exact Prod.ext rfl (s.2.extend_comm i j h xs ys)
      | nothing => rfl
  | nothing => rfl

/-- **What merging a field does depends on the field alone.** -/
theorem mergeField_touches {id : String} (d : Note) {a : Note} {f : Field}
    (h : ∀ origin g, a.get f = .shared origin g → g = f ∧ origin ≠ id) :
    ∃ t : Touch, ∀ b now, b.get f = a.get f →
      mergeField id d b now f = .ok (t.apply f (b, now)) := by
  unfold mergeField
  cases hget : a.get f with
  | list xs =>
      cases d.get f with
      | list ys => exact ⟨.set (.list (xs ++ ys)), fun b now hb => by rw [hb]; rfl⟩
      | _ => exact ⟨.nothing, fun b now hb => by rw [hb]; rfl⟩
  | shared origin g =>
      obtain ⟨rfl, hne⟩ := h origin g hget
      cases d.get g with
      | list ys =>
          refine ⟨.extend origin ys, fun b now hb => ?_⟩
          rw [hb]
          dsimp only
          rw [if_neg (by simp [hne])]
          rfl
      | _ => exact ⟨.nothing, fun b now hb => by rw [hb]; rfl⟩
  | null =>
      cases d.get f with
      | list ys => exact ⟨.set (.shared id f), fun b now hb => by rw [hb]; rfl⟩
      | _ => exact ⟨.set _, fun b now hb => by rw [hb]; rfl⟩
  | _ => exact ⟨.nothing, fun b now hb => by rw [hb]; rfl⟩

section Merge

variable {id : String}

theorem mergeFields_swap (d : Note) {a : Note} (defs : Definitions) {f g : Field} (hfg : f ≠ g)
    (fields : List Field) (h : Adopts id a (f :: g :: fields)) :
    mergeFields id d a defs (f :: g :: fields) = mergeFields id d a defs (g :: f :: fields) := by
  obtain ⟨t, ht⟩ := mergeField_touches d (h f List.mem_cons_self)
  obtain ⟨u, hu⟩ := mergeField_touches d (h g (List.mem_cons_of_mem f List.mem_cons_self))
  have hf := ht a defs rfl
  have hg := hu a defs rfl
  have hfirst := hu _ (t.apply f (a, defs)).2 (t.apply_get hfg.symm (a, defs))
  have hsecond := ht _ (u.apply g (a, defs)).2 (u.apply_get hfg (a, defs))
  unfold mergeFields
  rw [hf, hg]
  dsimp only
  unfold mergeFields
  rw [hfirst, hsecond]
  dsimp only
  rw [t.apply_comm u hfg]

/-- **The fields of a definition are merged in any order.** -/
theorem mergeFields_perm (d : Note) {fields others : List Field} (hperm : fields.Perm others)
    (hnodup : fields.Nodup) {a : Note} (defs : Definitions) (h : Adopts id a fields) :
    mergeFields id d a defs fields = mergeFields id d a defs others := by
  induction hperm generalizing a defs with
  | nil => rfl
  | cons f _ ih =>
      obtain ⟨hnot, hrest⟩ := List.nodup_cons.mp hnodup
      obtain ⟨x, hx, -, hsame⟩ := mergeField_apart d defs (h f List.mem_cons_self)
      unfold mergeFields
      rw [hx]
      exact ih hrest x.2 (h.tail hnot fun g hg => (hsame g hg).value)
  | swap f g fields =>
      have hne : g ≠ f := fun e =>
        (List.nodup_cons.mp hnodup).1 (e ▸ List.mem_cons_self)
      exact mergeFields_swap d defs hne fields h
  | trans hfirst _ ih ih' =>
      rw [ih hnodup defs h]
      refine ih' (hfirst.nodup_iff.mp hnodup) defs fun f hf => h f ?_
      exact hfirst.mem_iff.mpr hf

/-- A field in which the definition says nothing changes nothing. -/
theorem mergeField_default {d a : Note} (defs : Definitions) {f : Field} (ha : a.Slotted)
    (hf : f ∈ a.kind.fields) (hd : d.get f = f.default) :
    mergeField id d a defs f = .ok (a, defs) := by
  have hself := Note.set_get ha.nodup (ha.mem hf)
  unfold mergeField
  rw [hd]
  unfold Field.default
  cases hl : f.alwaysList with
  | true =>
      obtain ⟨xs, hxs⟩ := ha.lists f hf hl
      rw [hxs] at hself ⊢
      rw [if_pos rfl]
      dsimp only
      rw [List.append_nil, hself]
  | false =>
      rw [if_neg Bool.false_ne_true]
      cases hget : a.get f with
      | null =>
          rw [hget] at hself
          dsimp only
          rw [hself]
      | _ => rfl

theorem mergeFields_filter {d a : Note} (defs : Definitions) (kept : Field → Bool)
    (fields : List Field) (ha : a.Slotted) (hsub : ∀ f ∈ fields, f ∈ a.kind.fields)
    (h : ∀ f ∈ fields, kept f = false → d.get f = f.default) :
    mergeFields id d a defs fields = mergeFields id d a defs (fields.filter kept) := by
  induction fields generalizing a defs with
  | nil => rfl
  | cons f fields ih =>
      obtain ⟨hf, hsub⟩ := List.forall_mem_cons.mp hsub
      obtain ⟨hfirst, h⟩ := List.forall_mem_cons.mp h
      cases hkept : kept f with
      | true =>
          rw [List.filter_cons_of_pos hkept, mergeFields, mergeFields]
          cases hx : mergeField id d a defs f with
          | error e => rfl
          | ok x =>
              have hsame : Retains False a defs x.1 x.2 := mergeField_retains hx
              exact ih x.2 (hsame.slotted ha) (fun g hg => hsame.kind_eq ▸ hsub g hg) h
      | false =>
          rw [List.filter_cons_of_neg (Bool.eq_false_iff.mp hkept), mergeFields,
            mergeField_default defs ha hf (hfirst hkept)]
          exact ih defs ha hsub h

/-- **It suffices to merge the fields in which the definition says something**, in any order. -/
theorem mergeFields_eq_of_said {d a : Note} (defs : Definitions) {fields : List Field}
    (hnodup : fields.Nodup) (hsub : ∀ f ∈ fields, f ∈ a.kind.fields)
    (hsaid : ∀ f ∈ a.kind.fields, d.get f ≠ f.default → f ∈ fields) (ha : a.Slotted)
    (h : Adopts id a a.kind.fields) :
    mergeFields id d a defs fields = merge id d a defs := by
  have hperm : (a.kind.fields.filter (fields.contains ·)).Perm fields := by
    refine (List.perm_ext_iff_of_nodup (a.kind.fields_nodup.filter _) hnodup).mpr fun f => ?_
    rw [List.mem_filter, List.contains_iff_mem]
    exact ⟨fun hf => hf.2, fun hf => ⟨hsub f hf, hf⟩⟩
  unfold merge
  rw [mergeFields_filter defs (fields.contains ·) a.kind.fields ha (fun _ hf => hf)
    fun f hf hnot => ?_]
  · exact (mergeFields_perm d hperm (a.kind.fields_nodup.filter _) defs fun f hf =>
      h f (List.mem_filter.mp hf).1).symm
  · refine Classical.byContradiction fun hne => ?_
    rw [List.contains_iff_mem.mpr (hsaid f hf hne)] at hnot
    cases hnot

end Merge

/-! ## 3. Annotations that are expanded alone -/

/-- Whether a field of a shape can hold a list. -/
def Shape.takesList : Shape → Bool
  | .list _ | .anything => true
  | _ => false

/-- Lists stand only in fields that are for lists. -/
def Note.ListsFit (a : Note) : Prop := ∀ f vs, a.get f = .list vs → f.shape.takesList = true

/-- As it was written, without an id that it refers to twice, and with lists only in fields that are
    for lists. -/
structure Note.Proper (a : Note) : Prop extends Note.Orderly True a where
  listsFit : a.ListsFit

/-- There is no list in the annotation, neither its own nor one in common with a definition. -/
def Note.Listless (a : Note) : Prop :=
  ∀ f, (∀ vs, a.get f ≠ .list vs) ∧ ∀ origin g, a.get f ≠ .shared origin g

/-- The kinds that nest nothing and have no field for a list. -/
def Kind.isLeaf : Kind → Bool
  | .items | .responseMessage => true
  | _ => false

theorem Kind.nestFields_of_isLeaf {k : Kind} (h : k.isLeaf = true) : k.nestFields = [] := by
  revert h
  cases k <;> decide

theorem Kind.nestField?_of_isLeaf {k : Kind} (h : k.isLeaf = true) (inner : Kind) :
    k.nestField? inner = none := by
  revert h
  cases k <;> cases inner <;> decide

theorem Kind.takesList_of_isLeaf {k : Kind} (h : k.isLeaf = true) {f : Field} (hf : f ∈ k.fields) :
    f.shape.takesList = false := by
  have hall : ∀ f ∈ k.fields, f.shape.takesList = false := by
    revert h
    cases k <;> decide
  exact hall f hf

/-- Of two nest fields of one kind, one is for annotations that nest nothing and have no lists. -/
theorem Kind.isLeaf_of_nestFields {k : Kind} {f g : Field} (hf : f ∈ k.nestFields)
    (hg : g ∈ k.nestFields) (h : f ≠ g) :
    (f = .items ∨ f = .responseMessages) ∨ g = .items ∨ g = .responseMessages := by
  have hall : ∀ f ∈ k.nestFields, ∀ g ∈ k.nestFields, f ≠ g →
      (f = .items ∨ f = .responseMessages) ∨ g = .items ∨ g = .responseMessages := by
    cases k <;> decide
  exact hall f hf g hg h

theorem Note.listless_of_isLeaf {a : Note} (hk : a.kind.isLeaf = true) (ha : a.Slotted)
    (hu : a.Unshared) (hl : a.ListsFit) : a.Listless := by
  refine fun f => ⟨fun vs hget => ?_, hu f⟩
  have hf : f ∈ a.kind.fields := ha.keys_eq ▸ Note.mem_keys_of_list hget
  have htakes := hl f vs hget
  rw [Kind.takesList_of_isLeaf hk hf] at htakes
  cases htakes

theorem Note.Listless.fill {a : Note} (h : a.Listless) (f : Field) {v : Value}
    (hv : (∀ vs, v ≠ .list vs) ∧ ∀ origin g, v ≠ .shared origin g) : (a.fill f v).Listless := by
  unfold Note.fill
  split
  · intro g
    rcases a.get_set_cases f g v with hnew | hold
    · rw [hnew]
      exact hv
    · rw [hold]
      exact h g
  · exact h

/-- Without lists, merging fills what is unsaid and leaves the definitions alone. -/
theorem mergeField_listless {id : String} {d a : Note} (defs : Definitions) (f : Field)
    (hd : d.Listless) (ha : a.Listless) :
    mergeField id d a defs f = .ok (a.fill f (d.get f), defs) := by
  unfold mergeField Note.fill
  split
  · rename_i xs ys hx hy
    exact absurd hx ((ha f).1 xs)
  · rename_i origin g ys hx hy
    exact absurd hx ((ha f).2 origin g)
  · rename_i ys hx hy
    exact absurd hy ((hd f).1 ys)
  · rename_i hx _
    rw [hx]
    rfl
  · rename_i hnull _ _ _
    rw [if_neg fun h => hnull (Value.isNull_iff.mp h)]

/-- An annotation filled with what another one says. -/
def Note.fillAll (a d : Note) (fields : List Field) : Note :=
  fields.foldl (fun b f => b.fill f (d.get f)) a

theorem Note.Listless.fillAll {a d : Note} (ha : a.Listless) (hd : d.Listless)
    (fields : List Field) : (a.fillAll d fields).Listless := by
  unfold Note.fillAll
  induction fields generalizing a with
  | nil => exact ha
  | cons f fields ih => exact ih (ha.fill f (hd f))

theorem Note.kind_fillAll (a d : Note) (fields : List Field) :
    (a.fillAll d fields).kind = a.kind := by
  unfold Note.fillAll
  induction fields generalizing a with
  | nil => rfl
  | cons f fields ih =>
      rw [List.foldl_cons, ih]
      exact Note.kind_fill a f (d.get f)

theorem mergeFields_listless {id : String} {d a : Note} (defs : Definitions) (fields : List Field)
    (hd : d.Listless) (ha : a.Listless) :
    mergeFields id d a defs fields = .ok (a.fillAll d fields, defs) := by
  induction fields generalizing a with
  | nil => rfl
  | cons f fields ih =>
      rw [mergeFields, mergeField_listless defs f hd ha]
      exact ih (ha.fill f (hd f))

/-- **An annotation is expanded alone**: it comes to the same whenever it is expanded, and changes
    no definition; or it is always refused. -/
def Inert (base : Definitions) (inner : Expander) (chain : List String) (a : Note) : Prop :=
  (∃ b log, ∀ {now}, (alikeCustody False base).Holds now → inner chain now a = .ok ⟨b, now, log⟩) ∨
    ∀ {now}, (alikeCustody False base).Holds now → ∃ e, inner chain now a = .error e

section Leaf

variable {base : Definitions} {a : Note}

/-- Alike definitions without lists say the same. -/
theorem Note.Alike.listless {d e : Note} (h : d.Alike e) (hd : d.Listless) :
    e.Listless ∧ ∀ f, e.get f = d.get f := by
  have hget : ∀ f, e.get f = d.get f := by
    intro f
    rcases h.lists f with heq | ⟨vs, more, hvs, -⟩
    · exact heq
    · exact absurd hvs ((hd f).1 vs)
  refine ⟨fun f => ?_, hget⟩
  rw [hget f]
  exact hd f

/-- **Following one reference** of an annotation that nests nothing and has no lists. -/
theorem followId_leaf (inner : Expander) (location : String) (chain : List String)
    (hbase : ∀ id d, base.find? id = some d → d.Throughout Note.Proper)
    (hk : a.kind.isLeaf = true) (ha : a.Listless) (id : String) :
    ∃ b log, b.kind = a.kind ∧ b.Listless ∧ ∀ {now}, (alikeCustody False base).Holds now →
      followId inner location chain a now id = .ok ⟨b, now, log⟩ := by
  cases hd : base.find? id with
  | none =>
      refine ⟨a, warning (unknownIdMessage id) location, rfl, ha, fun {now} hI => ?_⟩
      have hnow : now.find? id = none := by
        refine Option.eq_none_iff_forall_ne_some.mpr fun e he => ?_
        obtain ⟨d, hd', -⟩ := hI.1.find? he
        rw [hd] at hd'
        cases hd'
      unfold followId
      rw [hnow]
  | some d =>
      by_cases hc : id ∈ chain
      · refine ⟨a, warning (circularMessage id) location, rfl, ha, fun {now} hI => ?_⟩
        obtain ⟨e, he, -⟩ := hI.1.find?_now hd
        unfold followId
        rw [he]
        dsimp only
        rw [if_pos (List.contains_iff_mem.mpr hc)]
      · have hcontains : ¬chain.contains id = true := fun hm => hc (List.contains_iff_mem.mp hm)
        by_cases hdk : d.kind = a.kind
        · have hproper := (hbase id d hd).root
          have hlistless : d.Listless := Note.listless_of_isLeaf (hdk ▸ hk) hproper.slotted
            hproper.unshared hproper.listsFit
          refine ⟨a.fillAll d a.kind.fields, [], a.kind_fillAll d _, ha.fillAll hlistless _,
            fun {now} hI => ?_⟩
          obtain ⟨e, he, hde⟩ := hI.1.find?_now hd
          obtain ⟨helistless, hget⟩ := hde.listless hlistless
          have hsame : a.fillAll e a.kind.fields = a.fillAll d a.kind.fields := by
            unfold Note.fillAll
            simp only [hget]
          unfold followId
          rw [he]
          dsimp only
          rw [if_neg hcontains, if_pos (hde.kind_eq.trans hdk), merge,
            mergeFields_listless now a.kind.fields helistless ha, hsame]
        · refine ⟨a, warning (notAllowedMessage id d.kind a.kind) location, rfl, ha,
            fun {now} hI => ?_⟩
          obtain ⟨e, he, hde⟩ := hI.1.find?_now hd
          unfold followId
          rw [he]
          dsimp only
          rw [if_neg hcontains, if_neg (hde.kind_eq ▸ hdk), Kind.nestField?_of_isLeaf hk,
            hde.kind_eq]

theorem followIds_leaf (inner : Expander) (location : String) (chain : List String)
    (hbase : ∀ id d, base.find? id = some d → d.Throughout Note.Proper)
    (hk : a.kind.isLeaf = true) (ha : a.Listless) (ids : List String) :
    ∃ b log, ∀ {now}, (alikeCustody False base).Holds now →
      followIds inner location chain a now ids = .ok ⟨b, now, log⟩ := by
  induction ids generalizing a with
  | nil => exact ⟨a, [], fun _ => rfl⟩
  | cons id ids ih =>
      obtain ⟨b, log, hbk, hb, hstep⟩ := followId_leaf inner location chain hbase hk ha id
      obtain ⟨c, more, hrest⟩ := ih (hbk ▸ hk) hb
      refine ⟨c, log ++ more, fun hI => ?_⟩
      rw [followIds, hstep hI]
      dsimp only
      rw [hrest hI]

/-- **Annotations that nest nothing and have no lists are expanded alone.** -/
theorem expandTo_inert (location : String) (depth : Nat) (chain : List String)
    (hbase : ∀ id d, base.find? id = some d → d.Throughout Note.Proper)
    (hk : a.kind.isLeaf = true) (ha : a.partials = [] ∨ a.Listless) :
    Inert base (expandTo location depth) chain a := by
  cases depth with
  | zero => exact .inr fun _ => ⟨_, rfl⟩
  | succ depth =>
      refine .inl ?_
      have hrefs : ∃ b log, ∀ {now}, (alikeCustody False base).Holds now →
          followIds (expandTo location depth) location chain a now (queue now chain a) =
            .ok ⟨b, now, log⟩ := by
        rcases ha with hnil | ha
        · refine ⟨a, [], fun {now} _ => ?_⟩
          rw [queue_of_partials_nil now chain hnil, followIds]
        · obtain ⟨b, log, hall⟩ := followIds_leaf (expandTo location depth) location chain
            hbase hk ha (queue base chain a)
          refine ⟨b, log, fun hI => ?_⟩
          rw [hI.1.queue_eq]
          exact hall hI
      obtain ⟨b, log, hall⟩ := hrefs
      refine ⟨{ b with partials := [] }, log, fun hI => ?_⟩
      rw [expandTo_succ_eq, hall hI, Kind.nestFields_of_isLeaf hk]
      unfold andThen
      dsimp only
      rw [expandFields]
      dsimp only
      rw [List.append_nil]

end Leaf

/-! ## 4. Nest fields in any order -/

/-- The annotation with a field changed, if there is something to change. -/
def Note.updated (a : Note) (f : Field) : Option Value → Note
  | some v => a.set f v
  | none => a

theorem Note.get_updated_of_ne (a : Note) {f g : Field} (v : Option Value) (h : g ≠ f) :
    (a.updated f v).get g = a.get g := by
  cases v with
  | none => rfl
  | some v => exact Note.get_set_of_ne a v h

theorem Note.updated_comm (a : Note) {f g : Field} (h : f ≠ g) (v w : Option Value) :
    (a.updated f v).updated g w = (a.updated g w).updated f v := by
  cases v with
  | none => rfl
  | some v =>
      cases w with
      | none => rfl
      | some w => exact a.set_comm h v w

section Nest

variable {base : Definitions} {inner : Expander} {chain : List String} {a : Note}
  {defs : Definitions} {f g : Field}

/-- What expanding a field does depends on what it holds. -/
theorem expandField_local (inner : Expander) (chain : List String) (a : Note) (defs : Definitions)
    (f : Field) :
    (∃ v later log, ∀ b : Note, b.get f = a.get f →
      expandField inner chain b defs f = .ok ⟨b.updated f v, later, log⟩) ∨
    ∃ e, ∀ b : Note, b.get f = a.get f → expandField inner chain b defs f = .error e := by
  unfold expandField
  cases a.get f with
  | list vs =>
      cases hx : expandItems inner chain defs vs with
      | error e =>
          refine .inr ⟨e, fun b hb => ?_⟩
          rw [hb]
          dsimp only
          rw [hx]
      | ok x =>
          refine .inl ⟨some (.list x.result), x.definitions, x.log, fun b hb => ?_⟩
          rw [hb]
          dsimp only
          rw [hx]
          rfl
  | note c =>
      cases hx : inner chain defs c with
      | error e =>
          refine .inr ⟨e, fun b hb => ?_⟩
          rw [hb]
          dsimp only
          rw [hx]
      | ok x =>
          refine .inl ⟨some (.note x.result), x.definitions, x.log, fun b hb => ?_⟩
          rw [hb]
          dsimp only
          rw [hx]
          rfl
  | _ =>
      refine .inl ⟨none, defs, [], fun b hb => ?_⟩
      rw [hb]
      rfl

/-- A field holds annotations that are expanded alone. -/
structure InertField (base : Definitions) (inner : Expander) (chain : List String) (v : Value) :
    Prop where
  inert : ∀ c ∈ v.notes, Inert base inner chain c
  isNote : ∀ vs, v = .list vs → ∀ w ∈ vs, ∃ c, w = .note c

theorem expandItems_inert (vs : List Value) (h : InertField base inner chain (.list vs)) :
    (∃ ws log, ∀ {now}, (alikeCustody False base).Holds now →
      expandItems inner chain now vs = .ok ⟨ws, now, log⟩) ∨
    ∀ {now}, (alikeCustody False base).Holds now →
      ∃ e, expandItems inner chain now vs = .error e := by
  induction vs with
  | nil => exact .inl ⟨[], [], fun _ => rfl⟩
  | cons v vs ih =>
      obtain ⟨c, rfl⟩ := h.isNote _ rfl v List.mem_cons_self
      have hrest : InertField base inner chain (.list vs) := by
        refine ⟨fun d hd => h.inert d ?_, fun ws hws w hw => h.isNote _ rfl w ?_⟩
        · exact Value.mem_notes_list.mpr (List.mem_cons_of_mem _ (Value.mem_notes_list.mp hd))
        · cases hws
          exact List.mem_cons_of_mem _ hw
      rcases h.inert c (Value.mem_notes_list.mpr List.mem_cons_self) with ⟨b, log, hc⟩ | hc
      · rcases ih hrest with ⟨ws, more, hall⟩ | hall
        · refine .inl ⟨.note b :: ws, log ++ more, fun hI => ?_⟩
          rw [expandItems, hc hI]
          dsimp only
          rw [hall hI]
        · refine .inr fun hI => ?_
          obtain ⟨e, he⟩ := hall hI
          refine ⟨e, ?_⟩
          rw [expandItems, hc hI]
          dsimp only
          rw [he]
      · refine .inr fun hI => ?_
        obtain ⟨e, he⟩ := hc hI
        refine ⟨e, ?_⟩
        rw [expandItems, he]

/-- A field of annotations that are expanded alone comes to the same at any time, and changes no
    definition. -/
theorem expandField_inert (h : InertField base inner chain (a.get f)) :
    (∃ v log, ∀ {now} (b : Note), (alikeCustody False base).Holds now → b.get f = a.get f →
      expandField inner chain b now f = .ok ⟨b.updated f v, now, log⟩) ∨
    ∀ {now} (b : Note), (alikeCustody False base).Holds now → b.get f = a.get f →
      ∃ e, expandField inner chain b now f = .error e := by
  unfold expandField
  cases hget : a.get f with
  | list vs =>
      rw [hget] at h
      rcases expandItems_inert vs h with ⟨ws, log, hall⟩ | hall
      · refine .inl ⟨some (.list ws), log, fun b hI hb => ?_⟩
        rw [hb]
        dsimp only
        rw [hall hI]
        rfl
      · refine .inr fun b hI hb => ?_
        obtain ⟨e, he⟩ := hall hI
        refine ⟨e, ?_⟩
        rw [hb]
        dsimp only
        rw [he]
  | note c =>
      rw [hget] at h
      rcases h.inert c (Value.mem_notes_note.mpr rfl) with ⟨d, log, hc⟩ | hc
      · refine .inl ⟨some (.note d), log, fun b hI hb => ?_⟩
        rw [hb]
        dsimp only
        rw [hc hI]
        rfl
      · refine .inr fun b hI hb => ?_
        obtain ⟨e, he⟩ := hc hI
        refine ⟨e, ?_⟩
        rw [hb]
        dsimp only
        rw [he]
  | _ =>
      refine .inl ⟨none, [], fun b _ hb => ?_⟩
      rw [hb]
      rfl

/-- **Two fields change places** if one of them holds annotations that are expanded alone. -/
theorem expandFields_swap (hfg : f ≠ g) (fields : List Field)
    (hf : InertField base inner chain (a.get f)) (hI : (alikeCustody False base).Holds defs)
    (hg : ∀ {x}, expandField inner chain a defs g = .ok x →
      (alikeCustody False base).Holds x.definitions) :
    SameOutcome (expandFields inner chain a defs (f :: g :: fields))
      (expandFields inner chain a defs (g :: f :: fields)) := by
  simp only [expandFields_cons_eq]
  unfold andThen
  -- the second field may fail and may change definitions; the first one is as good later as now
  rcases expandField_local inner chain a defs g with ⟨w, later, more, hlocal⟩ | ⟨e, hlocal⟩
  · have hlater := hg (hlocal a rfl)
    rcases expandField_inert hf with ⟨v, log, hinert⟩ | hinert
    · rw [hinert a hI rfl, hlocal a rfl]
      dsimp only
      rw [hlocal _ (a.get_updated_of_ne v hfg.symm),
        hinert _ hlater (a.get_updated_of_ne w hfg)]
      dsimp only
      rw [a.updated_comm hfg]
      cases expandFields inner chain ((a.updated g w).updated f v) later fields with
      | error e => trivial
      | ok y =>
          refine ⟨rfl, rfl, ?_⟩
          rw [← List.append_assoc, ← List.append_assoc]
          exact List.perm_append_comm.append_right _
    · obtain ⟨e, he⟩ := hinert a hI rfl
      obtain ⟨e', he'⟩ := hinert _ hlater (a.get_updated_of_ne w hfg)
      rw [he, hlocal a rfl]
      dsimp only
      rw [he']
      trivial
  · rw [hlocal a rfl]
    rcases expandField_inert hf with ⟨v, log, hinert⟩ | hinert
    · rw [hinert a hI rfl]
      dsimp only
      rw [hlocal _ (a.get_updated_of_ne v hfg.symm)]
      trivial
    · obtain ⟨e', he'⟩ := hinert a hI rfl
      rw [he']
      trivial

/-- Fields of which any two can change places: what is expanded in them keeps the definitions
    alike, and of two of them one holds annotations that are expanded alone. -/
structure Separate (base : Definitions) (inner : Expander) (chain : List String)
    (fields : List Field) (a : Note) : Prop where
  keeps : ∀ f ∈ fields, ∀ c ∈ (a.get f).notes, ∀ {now y}, (alikeCustody False base).Holds now →
    inner chain now c = .ok y → (alikeCustody False base).Holds y.definitions
  inert : ∀ f ∈ fields, ∀ g ∈ fields, f ≠ g →
    InertField base inner chain (a.get f) ∨ InertField base inner chain (a.get g)

theorem Separate.field (h : Separate base inner chain [f] a)
    (hI : (alikeCustody False base).Holds defs) {x : Expanded Note}
    (hx : expandField inner chain a defs f = .ok x) :
    (alikeCustody False base).Holds x.definitions ∧ ∀ g, g ≠ f → x.result.get g = a.get g := by
  have hlogs := expandField_logs (P := fun _ _ => True) (fun c hc now y hnow hy =>
    ⟨h.keeps f List.mem_cons_self c hc hnow hy, trivial⟩) hI hx
  exact ⟨hlogs.1, hlogs.2.1⟩

theorem Separate.sub {fields others : List Field} {b : Note}
    (h : Separate base inner chain fields a) (hsub : ∀ f ∈ others, f ∈ fields)
    (hsame : ∀ f ∈ others, b.get f = a.get f) : Separate base inner chain others b where
  keeps f hf c hc := by
    rw [hsame f hf] at hc
    exact h.keeps f (hsub f hf) c hc
  inert f hf g hg hne := by
    rw [hsame f hf, hsame g hg]
    exact h.inert f (hsub f hf) g (hsub g hg) hne

/-- **Nest fields are expanded in any order.** -/
theorem expandFields_perm {fields others : List Field} (hperm : fields.Perm others)
    (hnodup : fields.Nodup) (h : Separate base inner chain fields a)
    (hI : (alikeCustody False base).Holds defs) :
    SameOutcome (expandFields inner chain a defs fields)
      (expandFields inner chain a defs others) := by
  induction hperm generalizing a defs with
  | nil => exact .refl _
  | @cons f fields others _ ih =>
      obtain ⟨hnot, hrest⟩ := List.nodup_cons.mp hnodup
      rw [expandFields_cons_eq, expandFields_cons_eq]
      refine SameOutcome.andThen (.refl _) fun x hx => ?_
      have hone : Separate base inner chain [f] a :=
        h.sub (fun g hg => List.mem_singleton.mp hg ▸ List.mem_cons_self) fun _ _ => rfl
      obtain ⟨hxI, hothers⟩ := hone.field hI hx
      refine ih hrest (h.sub (fun g hg => List.mem_cons_of_mem f hg) fun g hg => ?_) hxI
      exact hothers g fun e => hnot (e ▸ hg)
  | swap f g fields =>
      have hne : g ≠ f := fun e => (List.nodup_cons.mp hnodup).1 (e ▸ List.mem_cons_self)
      have hone : ∀ e, e ∈ g :: f :: fields → Separate base inner chain [e] a := fun e he =>
        h.sub (fun d hd => List.mem_singleton.mp hd ▸ he) fun _ _ => rfl
      have hg : g ∈ g :: f :: fields := List.mem_cons_self
      have hf : f ∈ g :: f :: fields := List.mem_cons_of_mem g List.mem_cons_self
      -- either of the two may be the one that is expanded alone
      rcases h.inert g hg f hf hne with hinert | hinert
      · exact expandFields_swap hne fields hinert hI fun hx => ((hone f hf).field hI hx).1
      · exact (expandFields_swap hne.symm fields hinert hI
          fun hx => ((hone g hg).field hI hx).1).symm
  | trans hfirst _ ih ih' =>
      refine (ih hnodup h hI).trans (ih' (hfirst.nodup_iff.mp hnodup) ?_ hI)
      exact h.sub (fun f hf => hfirst.mem_iff.mpr hf) fun _ _ => rfl

end Nest

end Marginalia
