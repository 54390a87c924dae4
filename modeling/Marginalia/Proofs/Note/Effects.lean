import Marginalia.Proofs.Note.Checking

/-!
# What becomes of an argument

Each argument of an annotation does one of four things to what has been gathered (`Effect`): it is
noted as a reference, it enters a value under a name, it adds values under a name, or it is refused.
All that follows is read off from that:

* `references_addAll`: references add up, whatever else happens;
* `Holds.addAll`: an annotation that has been gathered for a field is there until an argument
  enters a value under the name of the field, and no other argument takes it away;
* `Gathered.Same`, `Gathered.SameBut`: two gatherings that say the same, or the same but under one
  name. The first argument that enters a value there makes them say the same.

The check then keeps what has been gathered (`mem_notes_of_check`) and does not ask in which order
it was (`check_congr`). Main statements: `nested_of_build`, `build_without_replaced` and
`build_without_reference`.
-/

namespace Marginalia

/-! ## 1. Effects -/

/-- What an argument does to what has been gathered. -/
inductive Effect where
  | refer (ids : List String)
  | put (name : String) (v : Value)
  | extend (name : String) (vs : List Value)
  | refuse (fault : Fault)

namespace Effect

/-- What is gathered with the effect. -/
def apply (g : Gathered) : Effect → Except Fault Gathered
  | .refer ids => .ok { g with references := g.references ++ ids }
  | .put name v => .ok (g.put name v)
  | .extend name vs => g.extend name vs
  | .refuse fault => .error fault

/-- The references that an effect notes. -/
def ids : Effect → List String
  | .refer ids => ids
  | _ => []

end Effect

/-- The definitions that a reference names: one, or none if it names none. -/
def Note.referred (a : Note) : List String := (a.text? .value).toList.filter (· ≠ "")

/-- What a nested annotation does. -/
def Note.effect (k : Kind) (a : Note) : Effect :=
  if a.kind = .reference then .refer a.referred
  else match k.nestField? a.kind with
    | none => .refuse (.misplaced a.kind k)
    | some f => if f.alwaysList then .extend f.key a.unwrapped else .put f.key (.note a)

/-- The effect of an annotation that has a place. -/
theorem Note.effect_of_nestField? {k : Kind} {a : Note} {f : Field}
    (h : k.nestField? a.kind = some f) :
    a.effect k = if f.alwaysList then .extend f.key a.unwrapped else .put f.key (.note a) := by
  have hreference : a.kind ≠ .reference := by
    intro hkind
    rw [hkind] at h
    cases k <;> cases h
  unfold Note.effect
  rw [if_neg hreference, h]

/-- Annotations that enter or add something have a place. -/
theorem Note.effect_cases (k : Kind) (a : Note) :
    (a.kind = .reference ∧ a.effect k = .refer a.referred) ∨
      (∃ fault, a.effect k = .refuse fault) ∨ ∃ f, k.nestField? a.kind = some f := by
  unfold Note.effect
  split
  · rename_i hreference
    exact .inl ⟨hreference, rfl⟩
  · split
    · exact .inr (.inl ⟨_, rfl⟩)
    · rename_i f hf
      exact .inr (.inr ⟨f, hf⟩)

/-- What an argument does. -/
def Argument.effect (k : Kind) : Argument → Effect
  | .named name v => .put name v
  | .positional (.note a) => a.effect k
  | .positional v => match k.defaultField? with
    | some f => .put f.key v
    | none => .refuse (.unnamedValue k)

theorem Gathered.nest_eq (k : Kind) (g : Gathered) (a : Note) :
    g.nest k a = (a.effect k).apply g := by
  unfold Gathered.nest Note.effect
  by_cases hreference : a.kind = .reference
  · rw [if_pos hreference, if_pos hreference, Note.referred]
    cases a.text? .value with
    | none => simp [Effect.apply]
    | some id =>
        by_cases hid : id = ""
        · simp [hid, Effect.apply]
        · simp [hid, Effect.apply]
  · rw [if_neg hreference, if_neg hreference]
    cases k.nestField? a.kind with
    | none => rfl
    | some f =>
        dsimp only
        split
        · rfl
        · rfl

/-- **Every argument has one effect.** -/
theorem Gathered.add_eq (k : Kind) (g : Gathered) (arg : Argument) :
    g.add k arg = (arg.effect k).apply g := by
  cases arg with
  | named name v => rfl
  | positional v =>
      cases v with
      | note a => exact Gathered.nest_eq k g a
      | _ =>
          unfold Gathered.add Argument.effect
          cases k.defaultField? <;> rfl

theorem Gathered.addAll_cons (k : Kind) (g : Gathered) (arg : Argument) (more : List Argument) :
    g.addAll k (arg :: more) = ((arg.effect k).apply g).bind (·.addAll k more) := by
  rw [Gathered.addAll, Gathered.add_eq]
  cases (arg.effect k).apply g <;> rfl

/-! ## 2. References add up -/

/-- The references that arguments note. -/
def referencesOf (k : Kind) (arguments : List Argument) : List String :=
  arguments.flatMap fun arg => (arg.effect k).ids

theorem references_apply {e : Effect} {g next : Gathered} (h : e.apply g = .ok next) :
    next.references = g.references ++ e.ids := by
  cases e with
  | refer ids =>
      cases h
      rfl
  | put name v =>
      cases h
      exact (List.append_nil _).symm
  | extend name vs =>
      obtain ⟨-, rfl⟩ := Gathered.extend_eq_ok h
      exact (List.append_nil _).symm
  | refuse fault => cases h

/-- **References add up**, in their order. -/
theorem references_addAll {k : Kind} {g last : Gathered} {arguments : List Argument}
    (h : g.addAll k arguments = .ok last) :
    last.references = g.references ++ referencesOf k arguments := by
  induction arguments generalizing g with
  | nil =>
      cases h
      exact (List.append_nil _).symm
  | cons arg arguments ih =>
      rw [Gathered.addAll_cons] at h
      obtain ⟨next, hnext, hlast⟩ := exists_of_bind_ok h
      rw [ih hlast, references_apply hnext, List.append_assoc]
      rfl

/-! ## 3. What is held -/

/-- **An annotation has been gathered for a field.** -/
inductive Gathered.Holds (g : Gathered) (f : Field) (a : Note) : Prop
  | listed {ws : List Value} (hl : f.alwaysList = true) (hsaid : g.said f.key = some (.list ws))
      (ha : .note a ∈ ws)
  | single (hl : f.alwaysList = false) (hsaid : g.said f.key = some (.note a))

namespace Gathered.Holds

variable {g next : Gathered} {f : Field} {a : Note}

theorem of_said (h : g.Holds f a) (hsame : next.said f.key = g.said f.key) : next.Holds f a := by
  cases h with
  | listed hl hsaid ha => exact .listed hl (hsame.trans hsaid) ha
  | single hl hsaid => exact .single hl (hsame.trans hsaid)

/-- Only an effect that enters a value under the name of the field takes the annotation away. -/
theorem apply {e : Effect} (h : g.Holds f a) (hput : ∀ v, e ≠ .put f.key v)
    (hnext : e.apply g = .ok next) : next.Holds f a := by
  cases e with
  | refer ids =>
      cases hnext
      exact h.of_said rfl
  | put name v =>
      cases hnext
      have hne : f.key ≠ name := fun heq => hput v (by rw [heq])
      exact h.of_said (Gathered.said_put_of_ne g v hne)
  | extend name vs =>
      obtain ⟨hopen, rfl⟩ := Gathered.extend_eq_ok hnext
      by_cases hname : name = f.key
      · subst hname
        cases h with
        | @listed ws hl hsaid ha =>
            refine .listed hl (Gathered.said_put_self g f.key _) ?_
            rw [hsaid]
            exact List.mem_append_left vs ha
        | single hl hsaid =>
            rw [hsaid] at hopen
            rcases hopen with hnone | ⟨ws, hlist⟩
            · cases hnone
            · cases hlist
      · exact h.of_said (Gathered.said_put_of_ne g _ (Ne.symm hname))
  | refuse fault => cases hnext

/-- **What is held is held until it is replaced.** -/
theorem addAll {k : Kind} {last : Gathered} {arguments : List Argument} (h : g.Holds f a)
    (hput : ∀ arg ∈ arguments, ∀ v, arg.effect k ≠ .put f.key v)
    (hlast : g.addAll k arguments = .ok last) : last.Holds f a := by
  induction arguments generalizing g with
  | nil =>
      cases hlast
      exact h
  | cons arg arguments ih =>
      rw [Gathered.addAll_cons] at hlast
      obtain ⟨next, hnext, hmore⟩ := exists_of_bind_ok hlast
      obtain ⟨harg, hrest⟩ := List.forall_mem_cons.mp hput
      exact ih (h.apply harg hnext) hrest hmore

end Gathered.Holds

/-! ## 4. Gatherings that say the same -/

/-- Two gatherings say the same under every name. -/
def Gathered.Same (g g' : Gathered) : Prop := ∀ name, g.said name = g'.said name

/-- A list can be added to what has been gathered under a name. -/
def Gathered.Open (g : Gathered) (name : String) : Prop :=
  g.said name = none ∨ ∃ ws, g.said name = some (.list ws)

theorem Gathered.Open.extend_ok {g : Gathered} {name : String} (h : g.Open name)
    (vs : List Value) : ∃ ws, g.extend name vs = .ok (g.put name (.list ws)) := by
  rcases h with hnone | ⟨ws, hlist⟩
  · exact ⟨vs, Gathered.extend_of_none hnone vs⟩
  · exact ⟨ws ++ vs, Gathered.extend_of_list hlist vs⟩

/-- Two gatherings say the same but under one name. If lists are added under this name, then they
    can be added to both. -/
structure Gathered.SameBut (f : Field) (g g' : Gathered) : Prop where
  others : ∀ name, name ≠ f.key → g.said name = g'.said name
  isOpen : f.alwaysList = true → g.Open f.key ∧ g'.Open f.key

section Same

variable {g g' next last : Gathered} {e : Effect} {f : Field}

theorem Gathered.Same.put (h : g.Same g') (name : String) (v : Value) :
    (g.put name v).Same (g'.put name v) := by
  intro other
  by_cases hname : other = name
  · rw [hname, Gathered.said_put_self, Gathered.said_put_self]
  · rw [Gathered.said_put_of_ne g v hname, Gathered.said_put_of_ne g' v hname, h other]

/-- Where both say the same, values are added to both or to none. -/
theorem Gathered.extend_alike {name : String} {vs : List Value} (h : g.said name = g'.said name)
    (hnext : g.extend name vs = .ok next) :
    ∃ v, next = g.put name v ∧ g'.extend name vs = .ok (g'.put name v) := by
  obtain ⟨hopen, rfl⟩ := Gathered.extend_eq_ok hnext
  refine ⟨_, rfl, ?_⟩
  rw [h] at hopen ⊢
  rcases hopen with hnone | ⟨ws, hlist⟩
  · rw [hnone]
    exact Gathered.extend_of_none hnone vs
  · rw [hlist]
    exact Gathered.extend_of_list hlist vs

/-- What says the same goes on saying the same. -/
theorem Gathered.Same.apply (h : g.Same g') (hnext : e.apply g = .ok next) :
    ∃ next', e.apply g' = .ok next' ∧ next.Same next' := by
  cases e with
  | refer ids =>
      cases hnext
      exact ⟨_, rfl, h⟩
  | put name v =>
      cases hnext
      exact ⟨_, rfl, h.put name v⟩
  | extend name vs =>
      obtain ⟨v, rfl, hnext'⟩ := Gathered.extend_alike (h name) hnext
      exact ⟨_, hnext', h.put name v⟩
  | refuse fault => cases hnext

theorem Gathered.Same.addAll {k : Kind} {arguments : List Argument} (h : g.Same g')
    (hlast : g.addAll k arguments = .ok last) :
    ∃ last', g'.addAll k arguments = .ok last' ∧ last.Same last' := by
  induction arguments generalizing g g' with
  | nil =>
      cases hlast
      exact ⟨g', rfl, h⟩
  | cons arg arguments ih =>
      rw [Gathered.addAll_cons] at hlast
      obtain ⟨next, hnext, hmore⟩ := exists_of_bind_ok hlast
      obtain ⟨next', hnext', hsame⟩ := h.apply hnext
      obtain ⟨last', hlast', hend⟩ := ih hsame hmore
      refine ⟨last', ?_, hend⟩
      rw [Gathered.addAll_cons, hnext']
      exact hlast'

/-- A value that is entered under the name makes both say the same. -/
theorem Gathered.SameBut.put (h : g.SameBut f g') (v : Value) :
    (g.put f.key v).Same (g'.put f.key v) := by
  intro other
  by_cases hname : other = f.key
  · rw [hname, Gathered.said_put_self, Gathered.said_put_self]
  · rw [Gathered.said_put_of_ne g v hname, Gathered.said_put_of_ne g' v hname,
      h.others other hname]

/-- As long as no value is entered under the name, both go on saying the same under all others. -/
theorem Gathered.SameBut.apply (h : g.SameBut f g') (hput : ∀ v, e ≠ .put f.key v)
    (hextend : ∀ vs, e = .extend f.key vs → f.alwaysList = true) (hnext : e.apply g = .ok next) :
    ∃ next', e.apply g' = .ok next' ∧ next.SameBut f next' := by
  have hkeep : ∀ {name : String} (v : Value), name ≠ f.key →
      (g.put name v).SameBut f (g'.put name v) := by
    intro name v hname
    refine ⟨fun other hother => ?_, fun hl => ?_⟩
    · by_cases hsame : other = name
      · rw [hsame, Gathered.said_put_self, Gathered.said_put_self]
      · rw [Gathered.said_put_of_ne g v hsame, Gathered.said_put_of_ne g' v hsame,
          h.others other hother]
    · unfold Gathered.Open
      rw [Gathered.said_put_of_ne g v (Ne.symm hname), Gathered.said_put_of_ne g' v (Ne.symm hname)]
      exact h.isOpen hl
  cases e with
  | refer ids =>
      cases hnext
      exact ⟨_, rfl, ⟨h.others, h.isOpen⟩⟩
  | put name v =>
      cases hnext
      exact ⟨_, rfl, hkeep v fun hname => hput v (by rw [hname])⟩
  | extend name vs =>
      by_cases hname : name = f.key
      · subst hname
        obtain ⟨hopen, hopen'⟩ := h.isOpen (hextend vs rfl)
        obtain ⟨ws, hws⟩ := hopen.extend_ok vs
        obtain ⟨ws', hws'⟩ := hopen'.extend_ok vs
        cases hws.symm.trans hnext
        refine ⟨_, hws', fun other hother => ?_, fun _ => ⟨.inr ⟨ws, ?_⟩, .inr ⟨ws', ?_⟩⟩⟩
        · rw [Gathered.said_put_of_ne g _ hother, Gathered.said_put_of_ne g' _ hother,
            h.others other hother]
        · exact Gathered.said_put_self g f.key _
        · exact Gathered.said_put_self g' f.key _
      · obtain ⟨v, rfl, hnext'⟩ := Gathered.extend_alike (h.others name hname) hnext
        exact ⟨_, hnext', hkeep v hname⟩
  | refuse fault => cases hnext

end Same

/-! ## 5. What replaces what -/

/-- Fields of one kind are told apart by their names. -/
theorem Kind.field_eq_of_key {k : Kind} {f f' : Field} (hf : f ∈ k.fields) (hf' : f' ∈ k.fields)
    (h : f.key = f'.key) : f = f' := by
  have hfound := (Kind.attribute?_of_mem (Kind.field_mem_attributes.mpr hf)).2
  have hfound' := (Kind.attribute?_of_mem (Kind.field_mem_attributes.mpr hf')).2
  have hkeys : (Attribute.field f).key = (Attribute.field f').key := h
  rw [hkeys, hfound'] at hfound
  exact (Attribute.field.inj (Option.some.inj hfound)).symm

/-- **An argument takes the place of what has been gathered for a field**: a value under its inner
    name or, if the field holds a single annotation, another one for it. -/
def Argument.Replaces (k : Kind) (f : Field) : Argument → Prop
  | .named name _ => name = f.key
  | .positional (.note a) => f.alwaysList = false ∧ k.nestField? a.kind = some f
  | .positional _ => False

section Replaces

variable {k : Kind} {f : Field} (hf : f ∈ k.nestFields)

include hf

/-- An annotation enters a value under the name of a field only if this is its place. -/
theorem Note.effect_of_put {a : Note} {v : Value} (h : a.effect k = .put f.key v) :
    f.alwaysList = false ∧ k.nestField? a.kind = some f := by
  rcases a.effect_cases k with ⟨-, heffect⟩ | ⟨fault, heffect⟩ | ⟨f', hfield⟩
  · rw [heffect] at h
    cases h
  · rw [heffect] at h
    cases h
  · rw [Note.effect_of_nestField? hfield] at h
    split at h
    · cases h
    · rename_i hl
      have hsame : f' = f := Kind.field_eq_of_key (Kind.nestField?_mem hfield).2
        (Kind.nestFields_subset hf) (Effect.put.inj h).1
      subst hsame
      exact ⟨Bool.eq_false_iff.mpr hl, hfield⟩

/-- It adds values there only if the field holds a list. -/
theorem Note.alwaysList_of_extend {a : Note} {vs : List Value}
    (h : a.effect k = .extend f.key vs) : f.alwaysList = true := by
  rcases a.effect_cases k with ⟨-, heffect⟩ | ⟨fault, heffect⟩ | ⟨f', hfield⟩
  · rw [heffect] at h
    cases h
  · rw [heffect] at h
    cases h
  · rw [Note.effect_of_nestField? hfield] at h
    split at h
    · rename_i hl
      have hsame : f' = f := Kind.field_eq_of_key (Kind.nestField?_mem hfield).2
        (Kind.nestFields_subset hf) (Effect.extend.inj h).1
      exact hsame ▸ hl
    · cases h

/-- Values without a name that are no annotations go elsewhere: a kind that has a default field has
    none for annotations. -/
theorem Argument.effect_positional {v : Value} (hv : ∀ a, v ≠ .note a) :
    ∃ fault, (Argument.positional v).effect k = .refuse fault := by
  have hdefault : k.defaultField? = none := by
    cases k with
    | items | reference => cases hf
    | _ => rfl
  cases v with
  | note a => exact absurd rfl (hv a)
  | _ =>
      unfold Argument.effect
      rw [hdefault]
      exact ⟨_, rfl⟩

/-- The arguments that replace are those that enter a value under the name of the field. -/
theorem Argument.replaces_iff (arg : Argument) :
    arg.Replaces k f ↔ ∃ v, arg.effect k = .put f.key v := by
  cases arg with
  | named name v => exact ⟨fun h => ⟨v, h ▸ rfl⟩, fun ⟨_, h⟩ => (Effect.put.inj h).1⟩
  | positional v =>
      by_cases hv : ∃ a, v = .note a
      · obtain ⟨a, rfl⟩ := hv
        refine ⟨fun ⟨hl, hfield⟩ => ⟨.note a, ?_⟩, fun ⟨w, hw⟩ => Note.effect_of_put hf hw⟩
        exact (Note.effect_of_nestField? hfield).trans (if_neg (Bool.eq_false_iff.mp hl))
      · obtain ⟨fault, heffect⟩ := Argument.effect_positional hf fun a h => hv ⟨a, h⟩
        refine iff_of_false ?_ ?_
        · cases v with
          | note a => exact absurd ⟨a, rfl⟩ hv
          | _ => exact id
        · rintro ⟨w, hw⟩
          rw [heffect] at hw
          cases hw

theorem Argument.alwaysList_of_extend {arg : Argument} {vs : List Value}
    (h : arg.effect k = .extend f.key vs) : f.alwaysList = true := by
  cases arg with
  | named name v => cases h
  | positional v =>
      by_cases hv : ∃ a, v = .note a
      · obtain ⟨a, rfl⟩ := hv
        exact Note.alwaysList_of_extend hf h
      · obtain ⟨fault, heffect⟩ := Argument.effect_positional hf fun a h => hv ⟨a, h⟩
        rw [heffect] at h
        cases h

/-- **The first argument that replaces makes all the same.** -/
theorem Gathered.SameBut.addAll {g g' last : Gathered} {arguments : List Argument}
    (h : g.SameBut f g') (hreplaced : ∃ arg ∈ arguments, arg.Replaces k f)
    (hlast : g.addAll k arguments = .ok last) :
    ∃ last', g'.addAll k arguments = .ok last' ∧ last.Same last' := by
  induction arguments generalizing g g' with
  | nil =>
      obtain ⟨arg, harg, -⟩ := hreplaced
      exact absurd harg List.not_mem_nil
  | cons arg arguments ih =>
      rw [Gathered.addAll_cons] at hlast ⊢
      obtain ⟨next, hnext, hmore⟩ := exists_of_bind_ok hlast
      by_cases hhere : arg.Replaces k f
      · obtain ⟨v, hv⟩ := (arg.replaces_iff hf).mp hhere
        rw [hv] at hnext ⊢
        cases hnext
        exact (h.put v).addAll hmore
      · have hput : ∀ v, arg.effect k ≠ .put f.key v := fun v hv =>
          hhere ((arg.replaces_iff hf).mpr ⟨v, hv⟩)
        obtain ⟨next', hnext', hsame⟩ :=
          h.apply hput (fun vs => Argument.alwaysList_of_extend hf) hnext
        have hlater : ∃ arg ∈ arguments, arg.Replaces k f := by
          obtain ⟨other, hother, hreplaces⟩ := hreplaced
          rcases List.mem_cons.mp hother with rfl | hother
          · exact absurd hreplaces hhere
          · exact ⟨other, hother, hreplaces⟩
        rw [hnext']
        exact ih hsame hlater hmore

end Replaces

/-! ## 6. The check keeps what is held -/

theorem Field.shape_of_nests {f : Field} (hn : f.nests = true) (hl : f.alwaysList = true) :
    ∃ item, f.shape = .list item ∧ ∀ s, item ≠ .list s := by
  cases f with
  | apis | operations | parameters | responseMessages | properties | members =>
      exact ⟨_, rfl, nofun⟩
  | _ => cases hl

/-- Fitting keeps the annotations that have been gathered. -/
theorem mem_notes_of_fit {g : Gathered} {f : Field} (hn : f.nests = true) {c : Note}
    (hc : g.Holds f c) :
    ∃ v, g.said f.key = some v ∧ v.isNull = false ∧
      ∀ w, fit f.shape v = .ok w → c ∈ w.notes := by
  cases hc with
  | @listed ws hl hsaid hc =>
      refine ⟨.list ws, hsaid, rfl, fun w hw => ?_⟩
      obtain ⟨item, hshape, hitem⟩ := Field.shape_of_nests hn hl
      rw [hshape, fit] at hw
      obtain ⟨us, hus, rfl⟩ := exists_of_map_ok hw
      exact Value.mem_notes_list.mpr (note_mem_of_fitItems hitem hus hc)
  | single hl hsaid =>
      refine ⟨.note c, hsaid, rfl, fun w hw => ?_⟩
      have hitems : f = .items := Field.eq_items_of_nests hn hl
      subst hitems
      have hchild : ∀ s, Field.items.shape ≠ .list s := by
        intro s hs
        cases hs
      rw [eq_note_of_fit hchild hw]
      exact Value.mem_notes_note.mpr rfl

/-- **The check keeps the annotations that have been gathered.** -/
theorem mem_notes_of_check {k : Kind} {g : Gathered} (hg : g.Written) {a : Note}
    (h : k.check g.attributes = .ok a) {f : Field} (hf : f ∈ k.nestFields) {c : Note}
    (hc : g.Holds f c) : c ∈ (a.get f).notes := by
  have hfield := Kind.nestFields_subset hf
  obtain ⟨v, hsaid, hnull, hfit⟩ := mem_notes_of_fit ((Kind.mem_nestFields hfield).mp hf) hc
  obtain ⟨hfaults, hleft, rfl⟩ := Kind.check_eq_ok_iff.mp h
  have hfitted := fitted_of_lookup hleft hfield hsaid hnull
  have hnone := hfaults _ (Kind.field_mem_attributes.mpr hfield)
  have hget : (k.noteOf (readEntries k g.attributes)).get f =
      (Attribute.field f).value (readEntries k g.attributes) :=
    @Note.get_of_fields (k.noteOf _) (fun f => (Attribute.field f).value _) rfl f hfield
  rw [hget, Attribute.value, hfitted]
  rw [hfitted] at hnone
  cases hresult : fit f.shape v with
  | ok w => exact hfit w hresult
  | error e =>
      obtain ⟨before, behind, hentries, -⟩ := List.lookup_eq_some_iff.mp hsaid
      have hentry : (Key.text f.key, v) ∈ g.attributes := by
        rw [hentries]
        exact List.mem_append_right _ List.mem_cons_self
      have hwritten := fit_written (hg _ hentry) f.shape
      rw [hresult] at hwritten hnone
      exact absurd (List.map_eq_nil_iff.mp hnone) hwritten

/-! ## 7. What is built -/

/-- All names are texts. -/
def Gathered.Textual (g : Gathered) : Prop := ∀ e ∈ g.attributes, ∃ s, e.1 = .text s

theorem Gathered.Textual.put {g : Gathered} (h : g.Textual) (name : String) (v : Value) :
    (g.put name v).Textual := by
  intro e he
  have he : e ∈ putEntry g.attributes (.text name) v := he
  by_cases hmem : Key.text name ∈ g.attributes.map (·.1)
  · rw [putEntry_of_mem v hmem] at he
    obtain ⟨d, hd, rfl⟩ := List.mem_map.mp he
    split
    · exact h d hd
    · exact h d hd
  · rw [putEntry_of_not_mem v hmem] at he
    rcases List.mem_append.mp he with he | he
    · exact h e he
    · cases List.mem_singleton.mp he
      exact ⟨name, rfl⟩

theorem Gathered.Textual.addAll {k : Kind} {g last : Gathered} {arguments : List Argument}
    (h : g.Textual) (hlast : g.addAll k arguments = .ok last) : last.Textual := by
  induction arguments generalizing g with
  | nil =>
      cases hlast
      exact h
  | cons arg arguments ih =>
      rw [Gathered.addAll_cons] at hlast
      obtain ⟨next, hnext, hmore⟩ := exists_of_bind_ok hlast
      refine ih ?_ hmore
      cases heffect : arg.effect k with
      | refer ids =>
          rw [heffect] at hnext
          cases hnext
          exact h
      | put name v =>
          rw [heffect] at hnext
          cases hnext
          exact h.put name v
      | extend name vs =>
          rw [heffect] at hnext
          obtain ⟨-, rfl⟩ := Gathered.extend_eq_ok hnext
          exact h.put name _
      | refuse fault =>
          rw [heffect] at hnext
          cases hnext

/-- What has been gathered up to an argument, and with it. -/
theorem Gathered.addAll_around {k : Kind} {before after : List Argument} {arg : Argument}
    {g last : Gathered} (h : g.addAll k (before ++ arg :: after) = .ok last) :
    ∃ here next, g.addAll k before = .ok here ∧ (arg.effect k).apply here = .ok next ∧
      next.addAll k after = .ok last := by
  rw [Gathered.addAll_append_eq] at h
  obtain ⟨here, hhere, hmore⟩ := exists_of_bind_ok h
  rw [Gathered.addAll_cons] at hmore
  obtain ⟨next, hnext, hlast⟩ := exists_of_bind_ok hmore
  exact ⟨here, next, hhere, hnext, hlast⟩

/-- Arguments that gather what says the same build the same, the references apart. -/
theorem Note.build_of_same {k : Kind} {before after : List Argument} {g last last' : Gathered}
    {b : Note} (hg : Gathered.empty.addAll k before = .ok g)
    (hlast' : g.addAll k after = .ok last') (hsame : last.Same last')
    (hb : k.check last.attributes = .ok b) :
    Note.build k (before ++ after) =
      .ok { b with partials := b.partials ++ last'.references } := by
  have hall : Gathered.empty.addAll k (before ++ after) = .ok last' := by
    rw [Gathered.addAll_append_eq, hg]
    exact hlast'
  have hempty : Gathered.empty.Textual := nofun
  unfold Note.build
  rw [hall]
  dsimp only
  rw [check_congr (hempty.addAll hall) hsame hb]

section Build

variable {k : Kind} {before after : List Argument} {a b : Note}

/-- An annotation that has a place is gathered there. -/
theorem Gathered.holds_of_nested {g next : Gathered} {f : Field}
    (hf : k.nestField? b.kind = some f) (h : (b.effect k).apply g = .ok next) {c : Note}
    (hc : .note c ∈ b.unwrapped) : next.Holds f c := by
  rw [Note.effect_of_nestField? hf] at h
  cases hl : f.alwaysList with
  | true =>
      rw [hl] at h
      obtain ⟨-, rfl⟩ := Gathered.extend_eq_ok h
      exact .listed hl (Gathered.said_put_self g f.key _) (List.mem_append_right _ hc)
  | false =>
      rw [hl] at h
      cases h
      have hgroup : b.kind.isGroup = false := by
        refine Bool.eq_false_iff.mpr fun hgroup => ?_
        rw [Kind.alwaysList_of_isGroup hgroup hf] at hl
        cases hl
      rw [Note.unwrapped, hgroup] at hc
      cases List.mem_singleton.mp hc
      exact .single hl (Gathered.said_put_self g f.key _)

/-- **What becomes of a nested annotation.** A reference is listed in the annotation it is written
    in. Any other annotation has a place there. Unless an argument behind it takes its place, it is
    found there in what is built, a group by its members. -/
theorem nested_of_build (hwritten : ∀ arg ∈ before ++ .positional (.note b) :: after, arg.Written)
    (h : Note.build k (before ++ .positional (.note b) :: after) = .ok a) :
    (b.kind = .reference → ∀ id ∈ b.referred, id ∈ a.partials) ∧
      (b.kind ≠ .reference → ∃ f ∈ k.nestFields, k.nestField? b.kind = some f ∧
        ((∀ arg ∈ after, ¬arg.Replaces k f) →
          ∀ c, .note c ∈ b.unwrapped → c ∈ (a.get f).notes)) := by
  obtain ⟨last, d, hall, hd, rfl⟩ := Note.build_eq_ok h
  obtain ⟨here, next, -, hnext, hlast⟩ := Gathered.addAll_around hall
  have heffect : (Argument.positional (.note b)).effect k = b.effect k := rfl
  rw [heffect] at hnext
  rcases b.effect_cases k with ⟨hreference, hrefer⟩ | ⟨fault, hrefuse⟩ | ⟨f, hf⟩
  · refine ⟨fun _ id hid => List.mem_append_right _ ?_, absurd hreference⟩
    rw [references_addAll hlast, references_apply hnext, hrefer]
    exact List.mem_append_left _ (List.mem_append_right _ hid)
  · rw [hrefuse] at hnext
    cases hnext
  · have hnest := (Kind.nestField?_mem hf).1
    refine ⟨fun hreference => ?_, fun _ => ⟨f, hnest, hf, fun hkept c hc => ?_⟩⟩
    · rw [hreference] at hf
      cases k <;> cases hf
    · have hput : ∀ arg ∈ after, ∀ v, arg.effect k ≠ .put f.key v := fun arg harg v hv =>
        hkept arg harg ((arg.replaces_iff hnest).mpr ⟨v, hv⟩)
      have hheld := (Gathered.holds_of_nested hf hnext hc).addAll hput hlast
      have hlastWritten := Gathered.addAll_written _ hwritten .empty nofun hall
      have hkeeps := mem_notes_of_check hlastWritten hd hnest hheld
      exact hkeeps

/-- **What is replaced leaves no trace.** An annotation in whose place another argument comes may as
    well not be there. -/
theorem build_without_replaced {f : Field} (hf : k.nestField? b.kind = some f)
    (hreplaced : ∃ arg ∈ after, arg.Replaces k f)
    (h : Note.build k (before ++ .positional (.note b) :: after) = .ok a) :
    Note.build k (before ++ after) = .ok a := by
  obtain ⟨last, d, hall, hd, rfl⟩ := Note.build_eq_ok h
  obtain ⟨here, next, hhere, hnext, hlast⟩ := Gathered.addAll_around hall
  have heffect : (Argument.positional (.note b)).effect k =
      if f.alwaysList then .extend f.key b.unwrapped else .put f.key (.note b) :=
    Note.effect_of_nestField? hf
  have hids : ((Argument.positional (.note b)).effect k).ids = [] := by
    rw [heffect]
    split
    · rfl
    · rfl
  have hreferences := references_apply hnext
  rw [hids, List.append_nil] at hreferences
  -- without the annotation, all is the same but what stands under the name of its field
  have hbut : next.SameBut f here := by
    rw [heffect] at hnext
    cases hl : f.alwaysList with
    | true =>
        rw [hl] at hnext
        obtain ⟨hopen, rfl⟩ := Gathered.extend_eq_ok hnext
        refine ⟨fun name hname => Gathered.said_put_of_ne here _ hname, fun _ => ⟨?_, hopen⟩⟩
        exact .inr ⟨_, Gathered.said_put_self here f.key _⟩
    | false =>
        rw [hl] at hnext
        cases hnext
        refine ⟨fun name hname => Gathered.said_put_of_ne here _ hname, fun hlist => ?_⟩
        rw [hl] at hlist
        cases hlist
  obtain ⟨last', hlast', hsame⟩ := hbut.addAll (Kind.nestField?_mem hf).1 hreplaced hlast
  rw [Note.build_of_same hhere hlast' hsame hd, references_addAll hlast', references_addAll hlast,
    hreferences]

/-- **A reference is listed, and does nothing else.** -/
theorem build_without_reference (hb : b.kind = .reference)
    (h : Note.build k (before ++ .positional (.note b) :: after) = .ok a) :
    ∃ ids, Note.build k (before ++ after) = .ok { a with partials := ids } := by
  obtain ⟨last, d, hall, hd, rfl⟩ := Note.build_eq_ok h
  obtain ⟨here, next, hhere, hnext, hlast⟩ := Gathered.addAll_around hall
  have hrefer : (Argument.positional (.note b)).effect k = .refer b.referred := if_pos hb
  have hsame : next.Same here := by
    rw [hrefer] at hnext
    cases hnext
    exact fun name => rfl
  obtain ⟨last', hlast', hend⟩ := hsame.addAll hlast
  have hbuild := Note.build_of_same hhere hlast' hend hd
  exact ⟨_, hbuild⟩

/-- Arguments with the same effect are as good as one another. -/
theorem Note.build_congr_effect {arg arg' : Argument} (h : arg.effect k = arg'.effect k) :
    Note.build k (before ++ arg :: after) = Note.build k (before ++ arg' :: after) := by
  refine Note.build_congr ?_
  have hstep : ∀ g : Gathered, g.addAll k (arg :: after) = g.addAll k (arg' :: after) := by
    intro g
    rw [Gathered.addAll_cons, Gathered.addAll_cons, h]
  rw [Gathered.addAll_append_eq, Gathered.addAll_append_eq, funext hstep]

/-- **Of a group only its members count**, and not its references. -/
theorem Note.effect_of_group (hb : b.kind.isGroup = true) (ids : List String) :
    { b with partials := ids }.effect k = b.effect k := by
  have hunwrapped : { b with partials := ids }.unwrapped = b.unwrapped := by
    unfold Note.unwrapped
    rw [if_pos hb, if_pos hb]
    rfl
  have hreference : b.kind ≠ .reference := by
    intro hreference
    rw [hreference] at hb
    cases hb
  unfold Note.effect
  dsimp only
  rw [if_neg hreference, if_neg hreference, hunwrapped]
  cases hf : k.nestField? b.kind with
  | none => rfl
  | some f =>
      dsimp only
      rw [if_pos (Kind.alwaysList_of_isGroup hb hf), if_pos (Kind.alwaysList_of_isGroup hb hf)]

end Build

end Marginalia
