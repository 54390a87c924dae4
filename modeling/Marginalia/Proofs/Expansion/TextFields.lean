import Marginalia.Proofs.Expansion.Below
import Marginalia.Proofs.Note.Foreign

/-!
# Fields for text

A field for text holds one text or nothing, and no run changes it in a definition. So what expansion
makes of it can be said without the run, from the definitions of the beginning:

* `Value.firstSaid`: the first of some values that says something;
* `Note.Legible`: an annotation as it was read, without an id that it refers to twice and with text
  in its fields for text;
* `ExpandsAlike`: what an annotation has become at some time of a run, while the definitions were
  alike those of the beginning;
* `ExpandsAlike.texts`: then a field for text holds the first that is said by the annotation itself
  and by the definitions of its kind that it follows, and `ExpandsAlike.lists`: what stands in a
  list below has become something in the same way, each in its place.
-/

namespace Marginalia

/-! ## 1. The first that is said -/

/-- **The first of some values that says something**, or null. -/
def Value.firstSaid (vs : List Value) : Value := (vs.find? (!·.isNull)).getD .null

namespace Value

theorem firstSaid_singleton (v : Value) : firstSaid [v] = v := by
  cases v <;> rfl

/-- Of two values the first that is said can be taken beforehand. -/
theorem firstSaid_firstSaid (u v : Value) (vs : List Value) :
    firstSaid (firstSaid [u, v] :: vs) = firstSaid (u :: v :: vs) := by
  cases u with
  | null => cases v <;> rfl
  | _ => rfl

/-- Words are composed of the first one that is said. -/
theorem compose_words {vs : List Value} (h : ∀ v ∈ vs, v.IsWord) :
    compose vs = firstSaid vs ∧ (compose vs).IsWord := by
  induction vs with
  | nil => exact ⟨rfl, .inl rfl⟩
  | cons v vs ih =>
      obtain ⟨hv, hmore⟩ := List.forall_mem_cons.mp h
      rcases hv with rfl | ⟨s, rfl⟩
      · exact ih hmore
      · exact ⟨rfl, .inr ⟨s, rfl⟩⟩

theorem IsWord.ne_list {v : Value} (h : v.IsWord) (vs : List Value) : v ≠ .list vs := by
  rintro rfl
  rcases h with h | ⟨s, h⟩ <;> cases h

end Value

/-! ## 2. Words in definitions -/

theorem Field.nests_of_text {f : Field} (h : f.shape = .text) : f.nests = false := by
  revert h
  cases f <;> decide

theorem Note.Worded.get {a : Note} (h : a.Worded) {f : Field} (hf : f.shape = .text) :
    (a.get f).IsWord := by
  by_cases hmem : f ∈ a.keys
  · exact h (f, a.get f) (mem_of_lookup (Note.lookup_of_mem_keys hmem)) hf
  · exact .inl (Note.get_of_not_mem hmem)

/-- As it was read, with text in its fields for text and without an id that it refers to twice. -/
structure Note.Legible (a : Note) : Prop extends Note.Orderly True a where
  words : a.Worded

theorem Note.Legible.ready {a : Note} (h : a.Throughout Note.Legible) :
    a.Throughout (Note.Ready False) :=
  h.mono fun _ h => ⟨h.toNested, .inr ⟨h.toFresh, False.elim⟩⟩

section Definitions

variable {base defs : Definitions} {chain : List String} {k : Kind} {f : Field}

/-- Definitions that are alike say the same in fields for text. -/
theorem Note.Alike.get_of_text {d e : Note} (h : d.Alike e) (hd : d.Worded)
    (hf : f.shape = .text) : e.get f = d.get f := by
  rcases h.lists f with heq | ⟨vs, more, hvs, -⟩
  · exact heq
  · exact absurd hvs ((hd.get hf).ne_list vs)

theorem lent_isWord (hbase : ∀ id d, base.find? id = some d → d.Worded) (hf : f.shape = .text)
    (id : String) : (lent base chain k f id).IsWord := by
  unfold lent
  split
  · rename_i d hd
    split
    · exact (hbase id d hd).get hf
    · exact .inl rfl
  · exact .inl rfl

theorem untouched_of_text (hbase : ∀ id d, base.find? id = some d → d.Worded)
    (h : base.Alike defs) (hf : f.shape = .text) (done : List String) :
    Untouched base k f done defs := by
  intro r _ hr
  obtain ⟨d, hd, -⟩ := Option.map_eq_some_iff.mp hr
  obtain ⟨e, he, hde⟩ := h.find?_now hd
  rw [Definitions.column, Definitions.column, hd, he, Option.map_some, Option.map_some,
    hde.get_of_text (hbase r d hd) hf]

/-- No definition is inserted into a field for text, so each id gives what it lends. -/
theorem eq_map_lent {copies : String → Note → Prop} (hf : f.shape = .text) {ids : List String}
    {vs : List Value} (h : List.Forall₂ (Contributes copies base chain k f) ids vs) :
    vs = ids.map (lent base chain k f) := by
  have hlent : List.Forall₂ (fun id v => lent base chain k f id = v) ids vs := by
    refine h.imp fun id v hv => ?_
    rcases hv with ⟨⟨d, -, -, -, -, hnest⟩, -⟩ | ⟨-, rfl⟩
    · obtain ⟨hmem, hfields⟩ := Kind.nestField?_mem hnest
      have hnests := (Kind.mem_nestFields hfields).mp hmem
      rw [Field.nests_of_text hf] at hnests
      cases hnests
    · rfl
  have heq := List.forall₂_map_left_iff.mpr hlent
  rw [List.forall₂_eq_eq_eq] at heq
  exact heq.symm

end Definitions

/-! ## 3. Annotations below, one after another -/

section Below

variable {inner : Expander} {chain : List String} {I : Definitions → Prop}
  {E : Note → Note → Prop}

theorem expandItems_each (vs : List Value) {defs : Definitions} {x : Expanded (List Value)}
    (hinner : ∀ b, .note b ∈ vs → ∀ {now y}, I now → inner chain now b = .ok y →
      I y.definitions ∧ E b y.result)
    (hI : I defs) (h : expandItems inner chain defs vs = .ok x) :
    I x.definitions ∧ List.Forall₂ (Value.BecomesItem E) vs x.result := by
  induction vs generalizing defs x with
  | nil =>
      cases h
      exact ⟨hI, .nil⟩
  | cons v vs ih =>
      unfold expandItems at h
      split at h
      · rename_i b
        split at h
        · cases h
        · rename_i y hy
          split at h
          · cases h
          · rename_i z hz
            cases h
            obtain ⟨hyI, hE⟩ := hinner b List.mem_cons_self hI hy
            obtain ⟨hzI, hrest⟩ := ih (fun c hc => hinner c (List.mem_cons_of_mem _ hc)) hyI hz
            exact ⟨hzI, .cons ⟨b, _, rfl, rfl, hE⟩ hrest⟩
      · cases h

theorem expandField_each {a : Note} {f : Field} {defs : Definitions} {x : Expanded Note}
    (hinner : ∀ b ∈ (a.get f).notes, ∀ {now y}, I now → inner chain now b = .ok y →
      I y.definitions ∧ E b y.result)
    (hI : I defs) (h : expandField inner chain a defs f = .ok x) :
    I x.definitions ∧ (a.get f).Becomes E (x.result.get f) ∧
      ∀ g, g ≠ f → x.result.get g = a.get g := by
  unfold expandField at h
  split at h
  · rename_i vs hvs
    split at h
    · cases h
    · rename_i y hy
      cases h
      rw [hvs] at hinner
      obtain ⟨hyI, hitems⟩ := expandItems_each vs
        (fun b hb => hinner b (Value.mem_notes_list.mpr hb)) hI hy
      have hkey : f ∈ a.keys :=
        Note.mem_keys_of_ne_null fun hnull => Value.noConfusion (hvs.symm.trans hnull)
      refine ⟨hyI, ?_, fun g hg => Note.get_set_of_ne a _ hg⟩
      rw [hvs, Note.get_set_self _ hkey]
      exact ⟨_, rfl, hitems⟩
  · rename_i child hchild
    split at h
    · cases h
    · rename_i y hy
      cases h
      rw [hchild] at hinner
      obtain ⟨hyI, hE⟩ := hinner child (Value.mem_notes_note.mpr rfl) hI hy
      have hkey : f ∈ a.keys :=
        Note.mem_keys_of_ne_null fun hnull => Value.noConfusion (hchild.symm.trans hnull)
      refine ⟨hyI, ?_, fun g hg => Note.get_set_of_ne a _ hg⟩
      rw [hchild, Note.get_set_self _ hkey]
      exact ⟨_, rfl, hE⟩
  · rename_i hlist hnote
    cases h
    refine ⟨hI, ?_, fun _ _ => rfl⟩
    cases hget : a.get f with
    | list vs => exact absurd hget (hlist vs)
    | note b => exact absurd hget (hnote b)
    | _ => rfl

/-- **Each annotation in the nest fields becomes what the expander makes of it**, and whatever holds
    of the definitions meanwhile holds in the end. -/
theorem expandFields_each (fields : List Field) (hnodup : fields.Nodup) {a : Note}
    {defs : Definitions} {x : Expanded Note}
    (hinner : ∀ f ∈ fields, ∀ b ∈ (a.get f).notes, ∀ {now y}, I now →
      inner chain now b = .ok y → I y.definitions ∧ E b y.result)
    (hI : I defs) (h : expandFields inner chain a defs fields = .ok x) :
    I x.definitions ∧ (∀ f ∈ fields, (a.get f).Becomes E (x.result.get f)) ∧
      ∀ g, g ∉ fields → x.result.get g = a.get g := by
  induction fields generalizing a defs x with
  | nil =>
      cases h
      exact ⟨hI, nofun, fun _ _ => rfl⟩
  | cons f fields ih =>
      obtain ⟨hnot, hrest⟩ := List.nodup_cons.mp hnodup
      unfold expandFields at h
      split at h
      · cases h
      · rename_i y hy
        split at h
        · cases h
        · rename_i z hz
          cases h
          obtain ⟨hyI, hbecomes, hothers⟩ :=
            expandField_each (fun b hb => hinner f List.mem_cons_self b hb) hI hy
          have hsame : ∀ g ∈ fields, y.result.get g = a.get g := fun g hg =>
            hothers g fun e => hnot (e ▸ hg)
          obtain ⟨hzI, hmore, hlast⟩ := ih hrest (fun g hg b hb => by
            rw [hsame g hg] at hb
            exact hinner g (List.mem_cons_of_mem f hg) b hb) hyI hz
          refine ⟨hzI, List.forall_mem_cons.mpr ⟨?_, fun g hg => ?_⟩, fun g hg => ?_⟩
          · have hkept := hlast f hnot
            exact hkept ▸ hbecomes
          · exact hsame g hg ▸ hmore g hg
          · obtain ⟨hgf, hg⟩ := not_or.mp (mt List.mem_cons.mpr hg)
            exact (hlast g hg).trans (hothers g hgf)

end Below

/-! ## 4. What becomes of an annotation -/

/-- **What an annotation has become at some time of a run**, while the definitions were alike those
    of the beginning. -/
def ExpandsAlike (base : Definitions) (location : String) (chain : List String) (a b : Note) :
    Prop :=
  ∃ now depth x, (alikeCustody False base).Holds now ∧
    expandTo location depth chain now a = .ok x ∧ x.result = b

namespace ExpandsAlike

variable {base : Definitions} {location : String} {chain : List String} {a b : Note}

/-- A run taken apart: what the references have made of the annotation, and what becomes of it then.
    Below it stand annotations that are expanded in the same way. -/
theorem parts (ha : a.Throughout Note.Legible) (h : ExpandsAlike base location chain a b) :
    ∃ now depth y, (alikeCustody False base).Holds now ∧
      followIds (expandTo location depth) location chain a now (queue now chain a) = .ok y ∧
      b.kind = a.kind ∧
      (∀ f ∈ a.kind.nestFields,
        (y.result.get f).Becomes (ExpandsAlike base location chain) (b.get f)) ∧
      ∀ f, f ∉ a.kind.nestFields → b.get f = y.result.get f := by
  obtain ⟨now, depth, x, hI, hx, rfl⟩ := h
  have hready := Note.Legible.ready ha
  have hkind := (expandTo_settles hI hready hx).1
  cases depth with
  | zero => cases hx
  | succ depth =>
      obtain ⟨y, z, hy, hz, rfl⟩ := expandTo_parts hx
      obtain ⟨logs, -, hyk, -, hbelow, hnow, -⟩ := followQueue_course hI hready hy
      obtain ⟨-, hbecomes, hothers⟩ := expandFields_each (I := (alikeCustody False base).Holds)
        (E := ExpandsAlike base location chain) a.kind.nestFields a.kind.nestFields_nodup
        (fun f hf c hc later w hlater hw => by
          have hchild : c ∈ y.result.children := Note.mem_children.mpr ⟨f, hyk ▸ hf, hc⟩
          exact ⟨(expandTo_settles hlater (hbelow c hchild) hw).2.2, later, depth, w, hlater, hw,
            rfl⟩) hnow hz
      exact ⟨now, depth, y, hI, hy, hkind, hbecomes, hothers⟩

/-- **A field for text** holds the first that is said by the annotation itself and by the
    definitions of its kind that it follows. -/
theorem texts (hbase : ∀ id d, base.find? id = some d → d.Worded)
    (ha : a.Throughout Note.Legible) (h : ExpandsAlike base location chain a b) {f : Field}
    (hf : f ∈ a.kind.fields) (htext : f.shape = .text) :
    b.get f =
      Value.firstSaid (a.get f :: (queue base chain a).map (lent base chain a.kind f)) := by
  obtain ⟨now, depth, y, hI, hy, -, -, hothers⟩ := h.parts ha
  have hnests := Field.nests_of_text htext
  have hnot : f ∉ a.kind.nestFields := by
    rw [Kind.mem_nestFields hf, hnests]
    exact Bool.false_ne_true
  have hready := Note.Legible.ready ha
  rw [hothers f hnot]
  obtain ⟨logs, hcourse, -⟩ := followQueue_course hI hready hy
  rcases hcourse with ⟨hnil, hsame, -, -⟩ | hcourse
  · rw [hsame, queue_of_partials_nil base chain hnil]
    exact (Value.firstSaid_singleton _).symm
  · obtain ⟨vs, hvs, hshows⟩ := hcourse.composes (fun _ _ => True) (fun _ _ _ => trivial) hf
      (queue_nodup base chain (ha.root.partials_nodup trivial)) (fun _ _ => List.not_mem_nil)
      (fun hitems => by subst hitems; cases htext) (untouched_of_text hbase hI.1 htext [])
    obtain rfl := eq_map_lent htext hvs
    rw [Note.shows_of_ne_shared (ha.root.unshared f)] at hshows
    have hwords : ∀ v ∈ a.get f :: (queue base chain a).map (lent base chain a.kind f),
        v.IsWord := by
      refine List.forall_mem_cons.mpr ⟨ha.root.words.get htext, fun v hv => ?_⟩
      obtain ⟨id, -, rfl⟩ := List.mem_map.mp hv
      exact lent_isWord hbase htext id
    rw [(Value.compose_words hwords).1] at hshows
    -- no definition has a list there that the annotation could have in common with it
    obtain ⟨done, hway, -⟩ := hcourse.ends
    rw [← hshows, Note.shows_of_ne_shared fun origin g hget => ?_]
    obtain ⟨-, -, e, xs, ⟨⟨d, hd, hde⟩, -⟩, -, hxs⟩ := hway.adopted hget
    rw [hde.get_of_text (hbase origin d hd) htext] at hxs
    exact ((hbase origin d hd).get htext).ne_list xs hxs

/-- **A list of annotations** starts with what has become of its own items, each in its place. -/
theorem lists (ha : a.Throughout Note.Legible) (h : ExpandsAlike base location chain a b)
    {f : Field} (hf : f ∈ a.kind.nestFields) {vs : List Value} (hvs : a.get f = .list vs) :
    ∃ ws more, b.get f = .list (ws ++ more) ∧
      List.Forall₂ (Value.BecomesItem (ExpandsAlike base location chain)) vs ws := by
  obtain ⟨now, depth, y, hI, hy, -, hbecomes, -⟩ := h.parts ha
  have hready := Note.Legible.ready ha
  have hvacant : Vacant base chain a f := by
    rintro rfl
    have hnests := ha.root.nests .items hf
    rw [hvs] at hnests
    exact absurd hnests Value.not_nests_list
  have href := followQueue_referenced hI hready (ha.root.partials_nodup trivial) hy
  obtain ⟨given, -, hget⟩ := href.composed f hf hvacant
  have hitems := hbecomes f hf
  rw [hget, hvs] at hitems
  obtain ⟨ws, hws, hall⟩ := hitems
  have hfront := List.forall₂_take vs.length hall
  rw [List.take_left] at hfront
  exact ⟨ws.take vs.length, ws.drop vs.length, by rw [hws, List.take_append_drop], hfront⟩

end ExpandsAlike

end Marginalia
