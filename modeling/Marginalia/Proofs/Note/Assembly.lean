import Marginalia.Proofs.Note.Typed
import Marginalia.Proofs.Note.Written

/-!
# How arguments become an annotation

The two halves of building an annotation, each said by its outcome:

* `Gathers`: arguments add entries and references to whatever has been gathered before, as long as
  no name comes twice. Arguments behind one another gather what they gather one by one
  (`Gathers.append`), so that there is one lemma for each thing that can be said;
* `Kind.Tells`: entries give each attribute, under one of its two names, something that comes to a
  value, and leave out only what has this value anyway. The check then gives the annotation with
  these values (`Tells.check_eq`).

`Gathers.build_eq` puts them together.
-/

namespace Marginalia

/-! ## 1. Entries -/

theorem Key.same_text (k : Key) (s : String) : k.same (.text s) = (k == .text s) := by
  rw [Bool.eq_iff_iff, beq_iff_eq]
  cases k with
  | text t => rw [Key.same, beq_iff_eq, Key.text.injEq]
  | whole n => exact ⟨nofun, nofun⟩
  | real x => exact ⟨nofun, nofun⟩

/-- A new key comes last. -/
theorem putEntry_of_not_mem {es : List (Key × Value)} {name : String} (v : Value)
    (h : Key.text name ∉ es.map (·.1)) : putEntry es (.text name) v = es ++ [(.text name, v)] := by
  refine if_neg fun hany => h ?_
  obtain ⟨e, he, hsame⟩ := List.any_eq_true.mp hany
  rw [Key.same_text, beq_iff_eq] at hsame
  rw [← hsame]
  exact List.mem_map_of_mem he

/-- The last key keeps its place. -/
theorem putEntry_append_self {es : List (Key × Value)} {name : String} (v w : Value)
    (h : Key.text name ∉ es.map (·.1)) :
    putEntry (es ++ [(.text name, v)]) (.text name) w = es ++ [(.text name, w)] := by
  have hlast : (Key.text name).same (.text name) = true := by rw [Key.same_text, beq_self_eq_true]
  have hany : (es ++ [(Key.text name, v)]).any (·.1.same (.text name)) = true :=
    List.any_eq_true.mpr ⟨_, List.mem_append_right _ List.mem_cons_self, hlast⟩
  have hbefore : es.map (fun e => if e.1.same (.text name) then (e.1, w) else e) = es := by
    refine (List.map_congr_left fun e he => if_neg fun hsame => h ?_).trans (List.map_id _)
    rw [Key.same_text, beq_iff_eq] at hsame
    rw [← hsame]
    exact List.mem_map_of_mem he
  unfold putEntry
  rw [if_pos hany, List.map_append, hbefore, List.map_singleton, if_pos hlast]

theorem lookup_eq_none_of_not_mem {es : List (Key × Value)} {key : Key}
    (h : key ∉ es.map (·.1)) : es.lookup key = none := by
  refine List.lookup_eq_none_iff.mpr fun e he => bne_iff_ne.mpr fun heq => h ?_
  rw [heq]
  exact List.mem_map_of_mem he

theorem not_mem_of_nodup_append {es : List (Key × Value)} {e : Key × Value}
    (h : ((es ++ [e]).map (·.1)).Nodup) : e.1 ∉ es.map (·.1) := by
  rw [List.map_append, List.map_singleton] at h
  exact fun hmem => (List.nodup_append.mp h).2.2 e.1 hmem e.1 List.mem_cons_self rfl

/-! ## 2. Gathering -/

theorem Gathered.addAll_append {k : Kind} {g next : Gathered} {arguments : List Argument}
    (h : g.addAll k arguments = .ok next) (more : List Argument) :
    g.addAll k (arguments ++ more) = next.addAll k more := by
  induction arguments generalizing g with
  | nil =>
      cases h
      rfl
  | cons arg arguments ih =>
      unfold Gathered.addAll at h
      rw [List.cons_append, Gathered.addAll]
      cases hadd : g.add k arg with
      | ok after =>
          rw [hadd] at h
          exact ih h
      | error fault =>
          rw [hadd] at h
          cases h

/-- **Arguments add entries and references** to whatever has been gathered before, unless a name
    comes twice. -/
def Gathers (k : Kind) (arguments : List Argument) (es : List (Key × Value))
    (refs : List String) : Prop :=
  ∀ g : Gathered, ((g.attributes ++ es).map (·.1)).Nodup →
    g.addAll k arguments = .ok ⟨g.attributes ++ es, g.references ++ refs⟩

namespace Gathers

variable {k : Kind} {arguments more : List Argument} {es es' : List (Key × Value)}
  {refs refs' : List String}

theorem nil : Gathers k [] [] [] := by
  intro g _
  rw [List.append_nil, List.append_nil]
  rfl

theorem append (h : Gathers k arguments es refs) (h' : Gathers k more es' refs') :
    Gathers k (arguments ++ more) (es ++ es') (refs ++ refs') := by
  intro g hn
  rw [← List.append_assoc] at hn
  have hfirst : ((g.attributes ++ es).map (·.1)).Nodup := by
    rw [List.map_append] at hn
    exact (List.nodup_append.mp hn).1
  rw [Gathered.addAll_append (h g hfirst), h' _ hn, List.append_assoc, List.append_assoc]

theorem single {arg : Argument} (h : ∀ g : Gathered, ((g.attributes ++ es).map (·.1)).Nodup →
    g.add k arg = .ok ⟨g.attributes ++ es, g.references ++ refs⟩) : Gathers k [arg] es refs := by
  intro g hn
  rw [Gathered.addAll, h g hn]
  rfl

/-- A named argument sets the attribute of this name. -/
theorem named (name : String) (v : Value) :
    Gathers k [.named name v] [(.text name, v)] [] := by
  refine single fun g hn => ?_
  rw [List.append_nil, ← putEntry_of_not_mem v (not_mem_of_nodup_append hn)]
  rfl

/-- A reference to a partial definition is noted. -/
theorem reference {id : String} (hid : id ≠ "") {a : Note} (ha : a.kind = .reference)
    (hvalue : a.text? .value = some id) : Gathers k [.positional (.note a)] [] [id] := by
  refine single fun g _ => ?_
  show g.nest k a = _
  unfold Gathered.nest
  rw [if_pos ha, hvalue, List.append_nil]
  exact congrArg Except.ok (if_neg hid)

variable {c : Kind} {f : Field}

/-- An annotation for a field that holds one is put there. -/
theorem child (hc : c ≠ .reference) (hf : k.nestField? c = some f) (hl : f.alwaysList = false)
    {a : Note} (ha : a.kind = c) :
    Gathers k [.positional (.note a)] [(.text f.key, .note a)] [] := by
  subst ha
  refine single fun g hn => ?_
  show g.nest k a = _
  unfold Gathered.nest
  rw [if_neg hc, hf, List.append_nil,
    ← putEntry_of_not_mem (.note a) (not_mem_of_nodup_append hn)]
  dsimp only
  rw [hl]
  rfl

theorem add_member (hc : c ≠ .reference) (hgroup : c.isGroup = false)
    (hf : k.nestField? c = some f) (hl : f.alwaysList = true) {v : Value} (hv : v.IsNote c)
    (g : Gathered) : g.add k (.positional v) = g.extend f.key [v] := by
  obtain ⟨a, rfl, rfl⟩ := hv
  show g.nest k a = _
  unfold Gathered.nest Note.unwrapped
  rw [if_neg hc, hf, hgroup]
  exact if_pos hl

/-- Annotations for a list that has been started come to its end. -/
theorem addAll_members (hc : c ≠ .reference) (hgroup : c.isGroup = false)
    (hf : k.nestField? c = some f) (hl : f.alwaysList = true) {vs : List Value}
    (hvs : ∀ v ∈ vs, v.IsNote c) (before : List (Key × Value))
    (hbefore : Key.text f.key ∉ before.map (·.1)) (ws : List Value) (refs : List String) :
    Gathered.addAll k ⟨before ++ [(.text f.key, .list ws)], refs⟩ (vs.map .positional) =
      .ok ⟨before ++ [(.text f.key, .list (ws ++ vs))], refs⟩ := by
  induction vs generalizing ws with
  | nil =>
      rw [List.append_nil]
      rfl
  | cons v vs ih =>
      obtain ⟨hv, hvs⟩ := List.forall_mem_cons.mp hvs
      have hlookup : (before ++ [(Key.text f.key, Value.list ws)]).lookup (.text f.key) =
          some (.list ws) := by
        rw [List.lookup_append, lookup_eq_none_of_not_mem hbefore, Option.none_or]
        exact List.lookup_cons_self
      rw [List.map_cons, Gathered.addAll, add_member hc hgroup hf hl hv, Gathered.extend, hlookup]
      dsimp only [Gathered.put]
      rw [putEntry_append_self _ _ hbefore, ih hvs, List.append_assoc]
      rfl

/-- Annotations for a field that holds a list are put there, in order. -/
theorem members (hc : c ≠ .reference) (hgroup : c.isGroup = false)
    (hf : k.nestField? c = some f) (hl : f.alwaysList = true) {v : Value} {vs : List Value}
    (hvs : ∀ w ∈ v :: vs, w.IsNote c) :
    Gathers k ((v :: vs).map .positional) [(.text f.key, .list (v :: vs))] [] := by
  intro g hn
  have hfresh : Key.text f.key ∉ g.attributes.map (·.1) := not_mem_of_nodup_append hn
  obtain ⟨hv, hvs⟩ := List.forall_mem_cons.mp hvs
  rw [List.map_cons, Gathered.addAll, add_member hc hgroup hf hl hv, Gathered.extend,
    lookup_eq_none_of_not_mem hfresh]
  dsimp only [Gathered.put]
  rw [putEntry_of_not_mem _ hfresh, addAll_members hc hgroup hf hl hvs _ hfresh, List.append_nil]
  rfl

end Gathers

/-! ## 3. Checking -/

theorem Kind.field_mem_attributes {k : Kind} {f : Field} :
    .field f ∈ k.attributes ↔ f ∈ k.fields := by
  simp [Kind.attributes]

/-- What an attribute makes of a value that is given for it. -/
def Attribute.admit (a : Attribute) (v : Value) : Fitted Value :=
  if v.isNull && !a.refusesNull then .ok .null else fit a.shape v

/-- What an attribute is where nothing is given for it. -/
def Attribute.default (a : Attribute) : Value := if a.refusesNull then .list [] else .null

/-- The reading of one entry. -/
def Kind.reading (k : Kind) (e : Key × Value) : Reading where
  key := e.1
  given := e.2.typeName
  fitted := match k.attribute? e.1.toText with
    | some a => a.admit e.2
    | none => .ok e.2

theorem readEntries_eq_map (k : Kind) (es : List (Key × Value)) :
    readEntries k es = es.map k.reading := by
  induction es with
  | nil => rw [readEntries]; rfl
  | cons e es ih =>
      obtain ⟨key, v⟩ := e
      rw [readEntries, ih]
      rfl

/-- **Entries tell what the attributes of a kind are**: each of them gives an attribute, under the
    one name that is used for it, something that comes to its value, and an attribute that is given
    nothing has this value anyway. -/
structure Kind.Tells (k : Kind) (es : List (Key × Value)) (name : Attribute → String)
    (told : Attribute → Value) : Prop where
  names : ∀ a, name a = a.spelling ∨ name a = a.key
  entries : ∀ e ∈ es, ∃ a ∈ k.attributes, e.1 = .text (name a) ∧ a.admit e.2 = .ok (told a)
  silent : ∀ a ∈ k.attributes, .text (name a) ∉ es.map (·.1) → told a = a.default

namespace Kind.Tells

variable {k : Kind} {es : List (Key × Value)} {name : Attribute → String}
  {told : Attribute → Value}

theorem attribute?_name (h : k.Tells es name told) {a : Attribute} (ha : a ∈ k.attributes) :
    k.attribute? (name a) = some a := by
  obtain ⟨hspelling, hkey⟩ := Kind.attribute?_of_mem ha
  rcases h.names a with hname | hname
  · rw [hname, hspelling]
  · rw [hname, hkey]

/-- Whatever counts for an attribute has the one name of it and comes to its value. -/
theorem of_chosen? (h : k.Tells es name told) {a : Attribute} (ha : a ∈ k.attributes) {r : Reading}
    (hr : a.chosen? (readEntries k es) = some r) :
    r.key = .text (name a) ∧ r.fitted = .ok (told a) := by
  obtain ⟨hmem, hattr⟩ := Attribute.mem_of_chosen? ha hr
  rw [readEntries_eq_map] at hmem
  obtain ⟨e, he, rfl⟩ := List.mem_map.mp hmem
  obtain ⟨b, hb, hkey, hadmit⟩ := h.entries e he
  have hattr : k.attribute? e.1.toText = some a := hattr
  -- The entry was given for some attribute, but its name leaves no choice which one.
  have hsame : b = a := by
    rw [hkey] at hattr
    exact Option.some.inj ((h.attribute?_name hb).symm.trans hattr)
  subst hsame
  refine ⟨hkey, ?_⟩
  unfold Kind.reading
  rw [hattr]
  exact hadmit

/-- Something counts for an attribute that is named. -/
theorem chosen?_ne_none (h : k.Tells es name told) {a : Attribute}
    (hmem : Key.text (name a) ∈ es.map (·.1)) : a.chosen? (readEntries k es) ≠ none := by
  intro hnone
  obtain ⟨hspelling, hkey⟩ := Option.or_eq_none_iff.mp hnone
  obtain ⟨e, he, hename⟩ := List.mem_map.mp hmem
  have hr : k.reading e ∈ readEntries k es := by
    rw [readEntries_eq_map]
    exact List.mem_map_of_mem he
  rcases h.names a with hname | hname
  · rw [hname] at hename
    exact List.find?_eq_none.mp hspelling _ hr (beq_iff_eq.mpr hename)
  · rw [hname] at hename
    exact List.find?_eq_none.mp hkey _ hr (beq_iff_eq.mpr hename)

theorem fitted_eq (h : k.Tells es name told) {a : Attribute} (ha : a ∈ k.attributes) :
    a.fitted (readEntries k es) = .ok (told a) := by
  unfold Attribute.fitted
  cases hchosen : a.chosen? (readEntries k es) with
  | some r =>
      obtain ⟨-, hfitted⟩ := h.of_chosen? ha hchosen
      dsimp only
      rw [hfitted]
      rfl
  | none =>
      have hsilent := h.silent a ha fun hmem => h.chosen?_ne_none hmem hchosen
      dsimp only
      rw [hsilent]
      rfl

theorem leftovers_eq_nil (h : k.Tells es name told) :
    k.leftovers (readEntries k es) = [] := by
  refine List.filter_eq_nil_iff.mpr fun r hr => ?_
  rw [Bool.not_eq_true, Bool.not_eq_false', List.contains_iff_mem]
  have hreading := hr
  rw [readEntries_eq_map] at hreading
  obtain ⟨e, he, rfl⟩ := List.mem_map.mp hreading
  obtain ⟨a, ha, hkey, -⟩ := h.entries e he
  have hnamed : Key.text (name a) ∈ es.map (·.1) := hkey ▸ List.mem_map_of_mem he
  obtain ⟨r', hr'⟩ := Option.ne_none_iff_exists'.mp (h.chosen?_ne_none hnamed)
  refine List.mem_map.mpr ⟨r', List.mem_filterMap.mpr ⟨a, ha, hr'⟩, ?_⟩
  exact (h.of_chosen? ha hr').1.trans hkey.symm

/-- **The check gives the annotation that is told of.** -/
theorem check_eq (h : k.Tells es name told) :
    k.check es = .ok {
      kind := k
      partialId := (told .partialId).text?
      partials := (told .partials).items.filterMap Value.text?
      fields := k.fields.map fun f => (f, told (.field f)) } := by
  have hvalue : ∀ a ∈ k.attributes, a.value (readEntries k es) = told a := by
    intro a ha
    unfold Attribute.value
    rw [h.fitted_eq ha]
  have hfaults : k.attributes.flatMap (fun a => (a.fitted (readEntries k es)).faults) = [] := by
    refine List.flatMap_eq_nil_iff.mpr fun a ha => ?_
    rw [h.fitted_eq ha]
    rfl
  have hfields : k.fields.map (fun f => (f, (Attribute.field f).value (readEntries k es))) =
      k.fields.map fun f => (f, told (.field f)) := by
    refine List.map_congr_left fun f hf => ?_
    rw [hvalue _ (Kind.field_mem_attributes.mpr hf)]
  unfold Kind.check Kind.assemble
  rw [hfaults, h.leftovers_eq_nil, hfields, hvalue .partialId List.mem_cons_self,
    hvalue .partials (List.mem_cons_of_mem _ List.mem_cons_self)]
  rfl

end Kind.Tells

/-- **Arguments that gather what tells of an annotation build it**, with the references that they
    gather behind its own. -/
theorem Gathers.build_eq {k : Kind} {arguments : List Argument} {es : List (Key × Value)}
    {refs : List String} (h : Gathers k arguments es refs) (hn : (es.map (·.1)).Nodup)
    {name : Attribute → String} {told : Attribute → Value} (ht : k.Tells es name told) :
    Note.build k arguments = .ok {
      kind := k
      partialId := (told .partialId).text?
      partials := (told .partials).items.filterMap Value.text? ++ refs
      fields := k.fields.map fun f => (f, told (.field f)) } := by
  have hgathered : Gathered.empty.addAll k arguments = .ok ⟨es, refs⟩ := h .empty hn
  unfold Note.build
  rw [hgathered]
  dsimp only
  rw [ht.check_eq]

end Marginalia
