import Marginalia.Note.Build
import Marginalia.Proofs.Expansion.Tree

/-!
# Annotations as they are written

Whatever can be written as an annotation is well formed all the way down, and shares nothing:

* `Value.Written`: the annotations in a value, at any depth, are well formed, and there is no shared
  list among what they say; `Note.Written` says the same of an annotation. It then is fresh
  throughout (`Note.Written.fresh`);
* `Value.Fits`: the value is of a shape. Fitting a value gives one that fits and that is written if
  the first one was (`fit_written`);
* `build_written`: so an annotation that is built from written arguments is written.
-/

namespace Marginalia

/-! ## 1. Written values -/

/-- The annotations in a value are well formed, and no list in it is shared. -/
inductive Value.Written : Value → Prop
  | null : Written .null
  | bool (b : Bool) : Written (.bool b)
  | int (n : Int) : Written (.int n)
  | real (x : Number.Binary64) : Written (.real x)
  | text (s : String) : Written (.text s)
  | foreign : Written .foreign
  | list {vs : List Value} (items : ∀ v ∈ vs, Written v) : Written (.list vs)
  | pair {name : String} {v : Value} (value : Written v) : Written (.pair name v)
  | map {es : List (Key × Value)} (entries : ∀ e ∈ es, Written e.2) : Written (.map es)
  | note {a : Note} (nested : a.Nested) (slots : ∀ e ∈ a.fields, Written e.2) : Written (.note a)

/-- An annotation that is well formed, and so is whatever it says. -/
structure Note.Written (a : Note) : Prop where
  nested : a.Nested
  slots : ∀ e ∈ a.fields, e.2.Written

theorem Value.written_note {a : Note} : (Value.note a).Written ↔ a.Written := by
  constructor
  · intro h
    cases h with
    | note nested slots => exact ⟨nested, slots⟩
  · intro h
    exact .note h.nested h.slots

theorem Value.written_list {vs : List Value} : (Value.list vs).Written ↔ ∀ v ∈ vs, v.Written := by
  constructor
  · intro h
    cases h with
    | list items => exact items
  · exact .list

theorem Value.Written.ne_shared {v : Value} (h : v.Written) (origin : String) (f : Field) :
    v ≠ .shared origin f := by
  rintro rfl
  cases h

theorem Value.written_ofText? (s : Option String) : (Value.ofText? s).Written := by
  cases s with
  | none => exact .null
  | some s => exact .text s

theorem Note.Written.get {a : Note} (h : a.Written) (f : Field) : (a.get f).Written := by
  by_cases hf : f ∈ a.keys
  · obtain ⟨e, he, rfl⟩ := List.mem_map.mp hf
    have hget := lookup_of_mem h.nested.slotted.nodup he
    unfold Note.get
    rw [hget]
    exact h.slots e he
  · rw [Note.get_of_not_mem hf]
    exact .null

theorem Note.Written.set {a : Note} (h : a.Written) {f : Field} {v : Value} (hv : v.Written)
    (hl : f.alwaysList = true → ∃ vs, v = .list vs)
    (hn : f ∈ a.kind.nestFields → v.Nests f.shape) : (a.set f v).Written where
  nested := h.nested.set hl hn
  slots e he := by
    obtain ⟨e', he', rfl⟩ := List.mem_map.mp he
    split
    · exact hv
    · exact h.slots e' he'

/-- Being written does not depend on ids and references. -/
theorem Note.Written.congr {a b : Note} (h : a.Written) (hk : b.kind = a.kind)
    (hf : b.fields = a.fields) : b.Written :=
  ⟨h.nested.congr hk hf, fun e he => h.slots e (hf ▸ he)⟩

theorem Value.Written.fresh {v : Value} (h : v.Written) :
    ∀ b ∈ v.notes, b.Throughout Note.Fresh := by
  induction h with
  | list items ih =>
      intro b hb
      have hmem := Value.mem_notes_list.mp hb
      exact ih _ hmem b (Value.mem_notes_note.mpr rfl)
  | @note a nested slots ih =>
      intro b hb
      have hwritten : a.Written := ⟨nested, slots⟩
      rw [Value.mem_notes_note.mp hb]
      refine .intro ⟨nested, fun f origin g => (hwritten.get f).ne_shared origin g⟩ fun c hc => ?_
      obtain ⟨f, hf, hcf⟩ := Note.mem_children.mp hc
      obtain ⟨e, he, rfl⟩ := List.mem_map.mp (nested.mem_keys hf)
      have hget := lookup_of_mem nested.slotted.nodup he
      refine ih e he c ?_
      unfold Note.get at hcf
      rw [hget] at hcf
      exact hcf
  | _ => exact fun b hb => nomatch hb

/-- **A written annotation is fresh throughout.** -/
theorem Note.Written.fresh {a : Note} (h : a.Written) : a.Throughout Note.Fresh :=
  (Value.written_note.mpr h).fresh a (Value.mem_notes_note.mpr rfl)

/-! ## 2. Scalars fit -/

/-- The value is of a shape. -/
def Value.Fits : Shape → Value → Prop
  | .list item, v => ∃ vs, v = .list vs ∧ ∀ w ∈ vs, w.Fits item
  | .child k, v => v.IsNote k
  | _, _ => True

theorem Value.Fits.nests {shape : Shape} {v : Value} (h : v.Fits shape) : v.Nests shape := by
  unfold Value.Nests
  split
  · exact h
  · exact .inr h
  · trivial

theorem fitFlag_written {v w : Value} (h : fitFlag v = .ok w) : w.Written := by
  have hmap : ∀ r : Except Misfit Bool, r.map Value.bool = .ok w → w.Written := by
    intro r hr
    cases r with
    | error e => cases hr
    | ok b =>
        cases hr
        exact .bool b
  unfold fitFlag at h
  split at h
  · cases h
    exact .bool _
  · exact hmap _ h
  · exact hmap _ h
  · split at h
    · cases h
      exact .bool _
    · cases h
  · cases h

theorem fitWhole_written {v w : Value} (h : fitWhole v = .ok w) : w.Written := by
  unfold fitWhole at h
  split at h
  · cases h
    exact .int _
  · cases h
    exact .int _
  · rename_i x
    cases hx : wholeOfReal x with
    | error e =>
        rw [hx] at h
        cases h
    | ok n =>
        rw [hx] at h
        cases h
        exact .int n
  · split at h
    · cases h
      exact .int _
    · cases h
    · cases h
  · cases h

/-- The outcome of a fit: a value with a property, or something that is wrong. -/
def Fitted.Gives {α : Type} (P : α → Prop) : Fitted α → Prop
  | .ok x => P x
  | .error e => e ≠ []

theorem Fitted.Gives.mono {α : Type} {P Q : α → Prop} {r : Fitted α} (h : r.Gives P)
    (hPQ : ∀ x, P x → Q x) : r.Gives Q := by
  cases r with
  | ok x => exact hPQ x h
  | error e => exact h

theorem Fitted.Gives.map {α β : Type} {P : α → Prop} {Q : β → Prop} {f : α → β} {r : Fitted α}
    (h : r.Gives P) (hf : ∀ x, P x → Q (f x)) : Fitted.Gives Q (r.map f) := by
  cases r with
  | ok x => exact hf x h
  | error e => exact h

theorem Fitted.Gives.under {α : Type} {P : α → Prop} {r : Fitted α} (h : r.Gives P) (step : Step) :
    (r.under step).Gives P := by
  cases r with
  | ok x => exact h
  | error e => exact fun he => h (List.map_eq_nil_iff.mp he)

theorem Fitted.Gives.both {α β γ : Type} {P : α → Prop} {Q : β → Prop} {R : γ → Prop}
    {f : α → β → γ} {r : Fitted α} {s : Fitted β} (hr : r.Gives P) (hs : s.Gives Q)
    (hf : ∀ x y, P x → Q y → R (f x y)) : (Fitted.both f r s).Gives R := by
  cases r with
  | ok x =>
      cases s with
      | ok y => exact hf x y hr hs
      | error e => exact hs
  | error e =>
      cases s with
      | ok y => exact hr
      | error e' => exact fun he => hr (List.append_eq_nil_iff.mp he).1

/-- A value that is written and of a shape. -/
def Value.WrittenAs (shape : Shape) (v : Value) : Prop := v.Written ∧ v.Fits shape

theorem ofMisfit_gives {v : Value} {r : Except Misfit Value} {P : Value → Prop}
    (h : ∀ w, r = .ok w → P w) : (Fitted.ofMisfit v r).Gives P := by
  cases r with
  | error e => exact List.cons_ne_nil _ _
  | ok w => exact h w rfl

theorem fitScalar_written {v : Value} (hv : v.Written) (shape : Shape) :
    (fitScalar shape v).Gives (·.WrittenAs shape) := by
  cases shape with
  | text =>
      refine ofMisfit_gives fun w hw => ?_
      unfold fitText at hw
      split at hw
      · cases hw
        exact ⟨.text _, trivial⟩
      · cases hw
  | flag => exact ofMisfit_gives fun w hw => ⟨fitFlag_written hw, trivial⟩
  | whole => exact ofMisfit_gives fun w hw => ⟨fitWhole_written hw, trivial⟩
  | anything => exact ⟨hv, trivial⟩
  | list item => exact List.cons_ne_nil _ _
  | child k => exact List.cons_ne_nil _ _

/-! ## 3. Attributes are unambiguous -/

/-- Each name that an attribute can be given by names this attribute. -/
theorem Kind.attribute?_of_mem {k : Kind} {a : Attribute} (ha : a ∈ k.attributes) :
    k.attribute? a.spelling = some a ∧ k.attribute? a.key = some a := by
  have h : ∀ a ∈ k.attributes, k.attribute? a.spelling = some a ∧ k.attribute? a.key = some a := by
    cases k <;> decide
  exact h a ha

/-- A value that an attribute can have: one of its shape, or null if it takes that. -/
structure Attribute.Takes (a : Attribute) (v : Value) : Prop where
  written : v.Written
  fits : v.Fits a.shape ∨ v = .null ∧ a.refusesNull = false

/-- A reading gives a value that the attribute which its key names can have. -/
def Reading.Sound (k : Kind) (r : Reading) : Prop :=
  ∀ a, k.attribute? r.key.toText = some a → r.fitted.Gives a.Takes

theorem Attribute.mem_of_chosen? {k : Kind} {a : Attribute} (ha : a ∈ k.attributes)
    {readings : List Reading} {r : Reading} (h : a.chosen? readings = some r) :
    r ∈ readings ∧ k.attribute? r.key.toText = some a := by
  obtain ⟨hspelling, hkey⟩ := Kind.attribute?_of_mem ha
  unfold Attribute.chosen? at h
  rcases Option.or_eq_some_iff.mp h with h | ⟨-, h⟩
  · have hr := List.find?_some h
    refine ⟨List.mem_of_find?_eq_some h, ?_⟩
    rw [beq_iff_eq.mp hr]
    exact hspelling
  · have hr := List.find?_some h
    refine ⟨List.mem_of_find?_eq_some h, ?_⟩
    rw [beq_iff_eq.mp hr]
    exact hkey

theorem Field.shape_of_alwaysList {f : Field} (h : f.alwaysList = true) :
    ∃ item, f.shape = .list item := by
  cases f with
  | apis | operations | parameters | responseMessages | properties | members => exact ⟨_, rfl⟩
  | _ => cases h

theorem Attribute.shape_of_refusesNull {a : Attribute} (h : a.refusesNull = true) :
    ∃ item, a.shape = .list item := by
  cases a with
  | partialId => cases h
  | partials => exact ⟨_, rfl⟩
  | field f => exact Field.shape_of_alwaysList h

theorem Attribute.takes_default (a : Attribute) :
    a.Takes (if a.refusesNull then .list [] else .null) := by
  cases hnull : a.refusesNull with
  | true =>
      obtain ⟨item, hitem⟩ := Attribute.shape_of_refusesNull hnull
      refine ⟨.list nofun, .inl ?_⟩
      rw [hitem]
      exact ⟨[], rfl, nofun⟩
  | false => exact ⟨.null, .inr ⟨rfl, hnull⟩⟩

/-- An attribute has a value that it can have, whether one was given or not. -/
theorem Attribute.fitted_takes {k : Kind} {a : Attribute} (ha : a ∈ k.attributes)
    {readings : List Reading} (hsound : ∀ r ∈ readings, r.Sound k) :
    (a.fitted readings).Gives a.Takes := by
  unfold Attribute.fitted
  split
  · rename_i r hr
    obtain ⟨hmem, hattr⟩ := Attribute.mem_of_chosen? ha hr
    exact (hsound r hmem a hattr).under _
  · exact Attribute.takes_default a

theorem Attribute.value_takes {k : Kind} {a : Attribute} (ha : a ∈ k.attributes)
    {readings : List Reading} (hsound : ∀ r ∈ readings, r.Sound k)
    (hok : (a.fitted readings).faults = []) : a.Takes (a.value readings) := by
  have hfitted := Attribute.fitted_takes ha hsound
  unfold Attribute.value
  cases hv : a.fitted readings with
  | ok v =>
      rw [hv] at hfitted
      exact hfitted
  | error e =>
      rw [hv] at hfitted hok
      exact absurd hok hfitted

/-- What a field of an annotation can hold once it has been checked. -/
theorem Attribute.Takes.nests {f : Field} {v : Value} (h : (Attribute.field f).Takes v) :
    v.Nests f.shape := by
  rcases h.fits with hfits | ⟨rfl, hnull⟩
  · exact hfits.nests
  · have hdefault := f.nests_default
    have hl : f.alwaysList = false := hnull
    rw [Field.default, hl] at hdefault
    exact hdefault

theorem Attribute.Takes.list {f : Field} {v : Value} (h : (Attribute.field f).Takes v)
    (hl : f.alwaysList = true) : ∃ vs, v = .list vs := by
  rcases h.fits with hfits | ⟨-, hnull⟩
  · obtain ⟨item, hitem⟩ := Field.shape_of_alwaysList hl
    have hshape : (Attribute.field f).shape = .list item := hitem
    rw [hshape] at hfits
    obtain ⟨vs, hvs, -⟩ := hfits
    exact ⟨vs, hvs⟩
  · have hnull : f.alwaysList = false := hnull
    rw [hl] at hnull
    cases hnull

/-- **What is put together from sound readings is written.** -/
theorem Kind.assemble_written {k : Kind} {readings : List Reading}
    (hsound : ∀ r ∈ readings, r.Sound k) :
    (k.assemble readings).Gives fun a => a.Written ∧ a.kind = k := by
  unfold Kind.assemble
  dsimp only
  split
  · rename_i hfaults
    have htakes : ∀ f ∈ k.fields,
        (Attribute.field f).Takes ((Attribute.field f).value readings) := by
      intro f hf
      have hmem : Attribute.field f ∈ k.attributes :=
        List.mem_cons_of_mem _ (List.mem_cons_of_mem _ (List.mem_map_of_mem hf))
      have hnone := (List.append_eq_nil_iff.mp (List.isEmpty_iff.mp hfaults)).1
      exact Attribute.value_takes hmem hsound (List.flatMap_eq_nil_iff.mp hnone _ hmem)
    refine ⟨⟨⟨⟨Note.keys_of_fields rfl, fun f hf hl => ?_⟩, fun f hf => ?_⟩, fun e he => ?_⟩, rfl⟩
    · rw [Note.get_of_fields rfl hf]
      exact (htakes f hf).list hl
    · rw [Note.get_of_fields rfl (Kind.nestFields_subset hf)]
      exact (htakes f (Kind.nestFields_subset hf)).nests
    · obtain ⟨f, hf, rfl⟩ := List.mem_map.mp he
      exact (htakes f hf).written
  · rename_i hfaults
    exact fun h => hfaults (List.isEmpty_iff.mpr h)

/-! ## 4. Fitting values -/

theorem fitAttributes_written {a : Note} (ha : a.Written) (item : Shape) :
    (fitAttributes item a).Gives (·.WrittenAs (.list item)) := by
  unfold fitAttributes
  split
  · refine ⟨.list fun v hv => ?_, _, rfl, fun _ _ => trivial⟩
    obtain ⟨e, he, rfl⟩ := List.mem_map.mp hv
    refine .pair ?_
    rcases List.mem_cons.mp he with rfl | he
    · exact Value.written_ofText? a.partialId
    rcases List.mem_cons.mp he with rfl | he
    · refine .list fun v hv => ?_
      obtain ⟨s, -, rfl⟩ := List.mem_map.mp hv
      exact .text s
    · obtain ⟨slot, hslot, rfl⟩ := List.mem_map.mp he
      exact ha.slots slot hslot
  · intro h
    have hlen := congrArg List.length h
    simp [Note.attributeValues] at hlen

/-- Every value that is written fits as one that is written. -/
def FitsWritten (v : Value) : Prop := ∀ shape, (fit shape v).Gives (·.WrittenAs shape)

theorem fitItems_written {item : Shape} (vs : List Value) (h : ∀ v ∈ vs, FitsWritten v) (i : Nat) :
    (fitItems item i vs).Gives fun ws => ∀ w ∈ ws, w.WrittenAs item := by
  induction vs generalizing i with
  | nil =>
      rw [fitItems]
      exact fun w hw => nomatch hw
  | cons v vs ih =>
      rw [fitItems]
      refine ((h v List.mem_cons_self item).under _).both
        (ih (fun w hw => h w (List.mem_cons_of_mem v hw)) (i + 1)) fun x xs hx hxs w hw => ?_
      rcases List.mem_cons.mp hw with rfl | hw
      · exact hx
      · exact hxs w hw

theorem readEntries_sound {k : Kind} (es : List (Key × Value)) (h : ∀ e ∈ es, FitsWritten e.2) :
    ∀ r ∈ readEntries k es, r.Sound k := by
  induction es with
  | nil =>
      rw [readEntries]
      exact fun r hr => nomatch hr
  | cons e es ih =>
      obtain ⟨key, v⟩ := e
      rw [readEntries]
      intro r hr
      rcases List.mem_cons.mp hr with rfl | hr
      · intro a ha
        have ha : k.attribute? key.toText = some a := ha
        dsimp only
        rw [ha]
        dsimp only
        split
        · rename_i hnull
          rw [Bool.and_eq_true, Bool.not_eq_true'] at hnull
          exact ⟨.null, .inr ⟨rfl, hnull.2⟩⟩
        · have hfit := h (key, v) List.mem_cons_self a.shape
          exact hfit.mono fun w hw => ⟨hw.1, .inl hw.2⟩
      · exact ih (fun e he => h e (List.mem_cons_of_mem _ he)) r hr

/-- **Fitting keeps what is written**, and gives something of the shape. -/
theorem fit_written {v : Value} (hv : v.Written) : FitsWritten v := by
  induction hv with
  | @list vs items ih =>
      intro shape
      unfold fit
      cases shape with
      | list item =>
          refine (fitItems_written vs ih 0).map fun ws hws => ?_
          exact ⟨.list fun w hw => (hws w hw).1, ws, rfl, fun w hw => (hws w hw).2⟩
      | anything => exact ⟨.list items, trivial⟩
      | _ => exact List.cons_ne_nil _ _
  | @pair name v value ih =>
      intro shape
      unfold fit
      cases shape with
      | list item =>
          refine ((fitScalar_written (.text name) item).under _).both ((ih item).under _) ?_
          intro x y hx hy
          have hboth : ∀ w ∈ [x, y], w.WrittenAs item :=
            List.forall_mem_cons.mpr ⟨hx, List.forall_mem_singleton.mpr hy⟩
          exact ⟨.list fun w hw => (hboth w hw).1, _, rfl, fun w hw => (hboth w hw).2⟩
      | anything => exact ⟨.pair value, trivial⟩
      | _ => exact List.cons_ne_nil _ _
  | @map es entries ih =>
      intro shape
      unfold fit
      cases shape with
      | child k =>
          refine (Kind.assemble_written (readEntries_sound es ih)).map fun a ha => ?_
          exact ⟨Value.written_note.mpr ha.1, a, rfl, ha.2⟩
      | anything => exact ⟨.map entries, trivial⟩
      | _ => exact List.cons_ne_nil _ _
  | @note a nested slots ih =>
      intro shape
      unfold fit
      cases shape with
      | child k =>
          dsimp only
          split
          · rename_i hk
            exact ⟨.note nested slots, a, rfl, hk⟩
          · exact List.cons_ne_nil _ _
      | list item => exact fitAttributes_written ⟨nested, slots⟩ item
      | anything => exact ⟨.note nested slots, trivial⟩
      | _ => exact List.cons_ne_nil _ _
  | null => exact fun shape => fitScalar_written .null shape
  | bool b => exact fun shape => fitScalar_written (.bool b) shape
  | int n => exact fun shape => fitScalar_written (.int n) shape
  | real x => exact fun shape => fitScalar_written (.real x) shape
  | text s => exact fun shape => fitScalar_written (.text s) shape
  | foreign => exact fun shape => fitScalar_written .foreign shape

/-! ## 5. Building annotations -/

theorem putEntry_written {es : List (Key × Value)} (hes : ∀ e ∈ es, e.2.Written) (k : Key)
    {v : Value} (hv : v.Written) : ∀ e ∈ putEntry es k v, e.2.Written := by
  unfold putEntry
  intro e he
  split at he
  · obtain ⟨d, hd, rfl⟩ := List.mem_map.mp he
    split
    · exact hv
    · exact hes d hd
  · rcases List.mem_append.mp he with he | he
    · exact hes e he
    · cases List.mem_singleton.mp he
      exact hv

/-- What an argument says is written. -/
def Argument.Written : Argument → Prop
  | .named _ v => v.Written
  | .positional v => v.Written

/-- What has been gathered is written. -/
def Gathered.Written (g : Gathered) : Prop := ∀ e ∈ g.attributes, e.2.Written

theorem Gathered.Written.put {g : Gathered} (h : g.Written) (name : String) {v : Value}
    (hv : v.Written) : (g.put name v).Written := putEntry_written h _ hv

theorem Note.Written.unwrapped {a : Note} (h : a.Written) : ∀ v ∈ a.unwrapped, v.Written := by
  unfold Note.unwrapped
  intro v hv
  split at hv
  · have hmembers := h.get .members
    cases hget : a.get .members with
    | list vs =>
        rw [hget] at hmembers hv
        exact Value.written_list.mp hmembers v hv
    | _ =>
        rw [hget] at hv
        cases hv
  · cases List.mem_singleton.mp hv
    exact Value.written_note.mpr h

theorem Gathered.extend_written {g next : Gathered} (h : g.Written) {name : String}
    {vs : List Value} (hvs : ∀ v ∈ vs, v.Written) (hnext : g.extend name vs = .ok next) :
    next.Written := by
  unfold Gathered.extend at hnext
  split at hnext
  · cases hnext
    exact h.put name (.list hvs)
  · rename_i ws hws
    cases hnext
    refine h.put name (.list fun v hv => ?_)
    rcases List.mem_append.mp hv with hv | hv
    · obtain ⟨before, behind, heq, -⟩ := List.lookup_eq_some_iff.mp hws
      have hmem : (Key.text name, Value.list ws) ∈ g.attributes := by
        rw [heq]
        exact List.mem_append_right _ List.mem_cons_self
      exact Value.written_list.mp (h _ hmem) v hv
    · exact hvs v hv
  · cases hnext

theorem Gathered.add_written {k : Kind} {g next : Gathered} (h : g.Written) {arg : Argument}
    (harg : arg.Written) (hnext : g.add k arg = .ok next) : next.Written := by
  unfold Gathered.add at hnext
  split at hnext
  · cases hnext
    exact h.put _ harg
  · rename_i inner
    have hinner : inner.Written := Value.written_note.mp harg
    unfold Gathered.nest at hnext
    split at hnext
    · split at hnext
      · cases hnext
        split
        · exact h
        · exact h
      · cases hnext
        exact h
    · split at hnext
      · cases hnext
      · split at hnext
        · exact Gathered.extend_written h hinner.unwrapped hnext
        · cases hnext
          exact h.put _ harg
  · split at hnext
    · cases hnext
      exact h.put _ harg
    · cases hnext

theorem Gathered.addAll_written {k : Kind} (arguments : List Argument)
    (hargs : ∀ arg ∈ arguments, arg.Written) (g : Gathered) (h : g.Written) {last : Gathered}
    (hlast : g.addAll k arguments = .ok last) : last.Written := by
  induction arguments generalizing g with
  | nil =>
      cases hlast
      exact h
  | cons arg arguments ih =>
      unfold Gathered.addAll at hlast
      cases hnext : g.add k arg with
      | error fault =>
          rw [hnext] at hlast
          cases hlast
      | ok next =>
          rw [hnext] at hlast
          exact ih (fun a ha => hargs a (List.mem_cons_of_mem arg ha)) next
            (Gathered.add_written h (hargs arg List.mem_cons_self) hnext) hlast

/-- **What is built from written arguments is written.** -/
theorem build_written {k : Kind} {arguments : List Argument}
    (hargs : ∀ arg ∈ arguments, arg.Written) {a : Note} (h : Note.build k arguments = .ok a) :
    a.Written := by
  unfold Note.build at h
  cases hg : Gathered.addAll k .empty arguments with
  | error fault =>
      rw [hg] at h
      cases h
  | ok g =>
      have hgathered : g.Written := Gathered.addAll_written arguments hargs .empty nofun hg
      have hsound : ∀ r ∈ readEntries k g.attributes, r.Sound k :=
        readEntries_sound g.attributes fun e he => fit_written (hgathered e he)
      have hcheck : (k.check g.attributes).Gives fun a => a.Written ∧ a.kind = k :=
        Kind.assemble_written hsound
      rw [hg] at h
      dsimp only at h
      cases hc : k.check g.attributes with
      | error faults =>
          rw [hc] at h
          cases h
      | ok b =>
          rw [hc] at h hcheck
          cases h
          exact hcheck.1.congr rfl rfl

end Marginalia
