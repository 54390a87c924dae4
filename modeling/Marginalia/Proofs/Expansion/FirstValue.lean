import Marginalia.Proofs.Expansion.BreadthFirst
import Marginalia.Proofs.Expansion.Course
import Marginalia.Proofs.Expansion.Sharing

/-!
# The first value wins

Every id that an annotation follows gives something to each of its fields, or nothing:

* `lent`: what the definition says there, if it is of the annotation's kind;
* a copy of the definition, if its kind has its place there (`Definitions.Inserts`).

What the field comes to is composed of what it was and of what the ids give, one after another: the
first value wins, and if it is a list, the later lists come behind it (`Value.compose`). A list that
stands in a definition is read there (`Note.shows`). One reference is a step of this
(`Followed.contributes`), a row of them the composition (`Course.composes`), and what is done to the
annotations below afterwards is their own expansion (`fields_composed_breadth_first`).
-/

namespace Marginalia

/-! ## 1. Values one after another -/

/-- A field takes a value over: where it is unsaid it holds the value then, and where it is a list
    the items of the value come behind its own. -/
def Value.takeOver : (own given : Value) → Value
  | .null, v => v
  | .list xs, v => .list (xs ++ v.items)
  | u, _ => u

/-- **The first value wins.** Of some values, the first one that says something; if that is a list,
    with the items of all later lists behind its own. -/
def Value.compose (vs : List Value) : Value :=
  match vs.dropWhile Value.isNull with
  | [] => .null
  | .list xs :: later => .list (xs ++ later.flatMap Value.items)
  | v :: _ => v

theorem Value.takeOver_null (v : Value) : v.takeOver .null = v := by
  cases v with
  | list xs => exact congrArg Value.list (List.append_nil xs)
  | _ => rfl

theorem Value.compose_singleton (v : Value) : Value.compose [v] = v := by
  cases v with
  | list xs => exact congrArg Value.list (List.append_nil xs)
  | _ => rfl

/-- Taking over the first of the values that follow does not change what they come to. -/
theorem Value.compose_takeOver (u v : Value) (vs : List Value) :
    Value.compose (u :: v :: vs) = Value.compose (u.takeOver v :: vs) := by
  cases u with
  | list xs =>
      show Value.list (xs ++ (v.items ++ vs.flatMap Value.items)) =
        .list (xs ++ v.items ++ vs.flatMap Value.items)
      rw [List.append_assoc]
  | _ => rfl

/-! ## 2. What an id gives to a field -/

/-- What the definition of an id says in a field, if it is merged into an annotation of a kind. -/
def lent (defs : Definitions) (chain : List String) (k : Kind) (f : Field) (id : String) : Value :=
  match defs.find? id with
  | some d => if d.kind = k && !chain.contains id then d.get f else .null
  | none => .null

theorem lent_of_find? {defs : Definitions} {chain : List String} {k : Kind} {id : String} {d : Note}
    (hd : defs.find? id = some d) (hk : d.kind = k) (hc : id ∉ chain) (f : Field) :
    lent defs chain k f id = d.get f := by
  have hcontains : chain.contains id = false :=
    Bool.eq_false_iff.mpr fun hm => hc (List.contains_iff_mem.mp hm)
  unfold lent
  rw [hd]
  dsimp only
  rw [hcontains, decide_eq_true hk]
  rfl

theorem lent_eq_null {defs : Definitions} {chain : List String} {k : Kind} {id : String}
    (h : ∀ d, defs.find? id = some d → d.kind = k → id ∈ chain) (f : Field) :
    lent defs chain k f id = .null := by
  unfold lent
  split
  · rename_i d hd
    split
    · rename_i hboth
      rw [Bool.and_eq_true, decide_eq_true_eq, Bool.not_eq_true'] at hboth
      have hcontains := List.contains_iff_mem.mpr (h d hd hboth.1)
      rw [hboth.2] at hcontains
      cases hcontains
    · rfl
  · rfl

/-- **A copy of the definition goes into a field** of an annotation of a kind: the annotation does
    not descend from the id, and the definition is of a kind that has its place there, and no
    group. -/
def Definitions.Inserts (defs : Definitions) (chain : List String) (k : Kind) (id : String)
    (f : Field) : Prop :=
  ∃ d, defs.find? id = some d ∧ id ∉ chain ∧ d.kind ≠ k ∧ d.kind.isGroup = false ∧
    k.nestField? d.kind = some f

/-- **What following an id gives to a field**: a list with one copy of the definition where that has
    its place, and otherwise what it lends. -/
def Contributes (copies : String → Note → Prop) (defs : Definitions) (chain : List String)
    (k : Kind) (f : Field) (id : String) (v : Value) : Prop :=
  defs.Inserts chain k id f ∧ (∃ c, copies id c ∧ v = .list [.note c]) ∨
    ¬defs.Inserts chain k id f ∧ v = lent defs chain k f id

/-- What a field shows: a list in common with a definition is the one that stands there. -/
def Note.shows (defs : Definitions) (a : Note) (f : Field) : Value :=
  match a.get f with
  | .shared origin g => defs.sharedList origin g
  | v => v

theorem Note.shows_of_ne_shared {defs : Definitions} {a : Note} {f : Field}
    (h : ∀ origin g, a.get f ≠ .shared origin g) : a.shows defs f = a.get f := by
  unfold Note.shows
  split
  · rename_i origin g hget
    exact absurd hget (h origin g)
  · rfl

theorem Note.shows_of_get {defs : Definitions} {a : Note} {f : Field} {v : Value}
    (h : a.get f = v) (hv : ∀ origin g, v ≠ .shared origin g) : a.shows defs f = v := by
  subst h
  exact Note.shows_of_ne_shared hv

theorem Note.shows_of_list {defs : Definitions} {a : Note} {f : Field} {vs : List Value}
    (h : a.get f = .list vs) : a.shows defs f = .list vs :=
  Note.shows_of_get h fun _ _ h => nomatch h

theorem Note.shows_of_shared {defs : Definitions} {a : Note} {f g : Field} {origin : String}
    {v : Value} (h : a.get f = .shared origin g) (hv : defs.column g origin = some v) :
    a.shows defs f = v := by
  obtain ⟨d, hd, hget⟩ := Option.map_eq_some_iff.mp hv
  unfold Note.shows
  rw [h]
  show defs.sharedList origin g = v
  unfold Definitions.sharedList
  rw [hd]
  exact hget

/-- What a field shows depends on the field alone. -/
theorem SameAt.shows {f : Field} {p q : Note × Definitions} (h : SameAt f p q)
    (hown : ∀ origin g, p.1.get f = .shared origin g → g = f) :
    q.1.shows q.2 f = p.1.shows p.2 f := by
  have hvalue := h.value
  unfold Note.shows
  rw [hvalue]
  split
  · rename_i origin g hget
    obtain rfl := hown origin g hget
    have hcolumn := h.column origin
    unfold Definitions.column at hcolumn
    unfold Definitions.sharedList
    cases hp : p.2.find? origin with
    | none =>
        rw [hp, Option.map_none] at hcolumn
        rw [Option.map_eq_none_iff.mp hcolumn]
    | some d =>
        rw [hp, Option.map_some] at hcolumn
        obtain ⟨e, he, heq⟩ := Option.map_eq_some_iff.mp hcolumn
        rw [he]
        exact heq
  · rfl

/-! ## 3. Merging, seen from one field -/

/-- Merging a field takes over what the definition says there. Only the definition whose list the
    annotation has is changed. -/
theorem mergeField_shows {id : String} {d a : Note} {defs : Definitions} {f : Field}
    {c : Note × Definitions}
    (hlist : ∀ origin g, a.get f = .shared origin g →
      g = f ∧ origin ≠ id ∧ ∃ xs, defs.column f origin = some (.list xs))
    (hd : defs.column f id = some (d.get f)) (hu : d.Unshared) (hkey : f ∈ a.keys)
    (h : mergeField id d a defs f = .ok c) :
    c.1.shows c.2 f = (a.shows defs f).takeOver (d.get f) ∧
      ∀ r, a.get f ≠ .shared r f → c.2.column f r = defs.column f r := by
  have hset : ∀ v, (∀ origin g, v ≠ .shared origin g) → ∀ now, (a.set f v).shows now f = v :=
    fun v hv now => Note.shows_of_get (Note.get_set_self v hkey) hv
  unfold mergeField at h
  split at h
  · rename_i xs ys hx hy
    cases h
    have hown : a.shows defs f = .list xs := Note.shows_of_list hx
    rw [hset (.list (xs ++ ys)) (fun _ _ h => nomatch h), hown, hy]
    exact ⟨rfl, fun _ _ => rfl⟩
  · rename_i origin g ys hx hy
    obtain ⟨rfl, hne, xs, hxs⟩ := hlist origin g hx
    rw [if_neg (by simp [hne])] at h
    cases h
    rw [Note.shows_of_shared hx (Definitions.column_extend_self hxs ys),
      Note.shows_of_shared hx hxs, hy]
    refine ⟨rfl, fun r hr => ?_⟩
    have hro : r ≠ origin := fun e => hr (e ▸ hx)
    unfold Definitions.column
    simp only [Definitions.find?_extend, if_neg hro, Option.map_id']
  · rename_i ys hx hy
    cases h
    have hget := Note.get_set_self (.shared id f) hkey
    have hown : a.shows defs f = .null := Note.shows_of_get hx fun _ _ h => nomatch h
    rw [Note.shows_of_shared hget hd, hown]
    exact ⟨rfl, fun _ _ => rfl⟩
  · rename_i hx _
    cases h
    have hown : a.shows defs f = .null := Note.shows_of_get hx fun _ _ h => nomatch h
    rw [hset _ (hu f), hown]
    exact ⟨rfl, fun _ _ => rfl⟩
  · rename_i hnull hll hsl _
    cases h
    refine ⟨?_, fun _ _ => rfl⟩
    -- what is said stays, and a list gets nothing where the definition has none
    have hnone : ∀ xs, (Value.list xs).takeOver (d.get f) = .list xs ∨
        ∃ ys, d.get f = .list ys := by
      intro xs
      cases d.get f with
      | list ys => exact .inr ⟨ys, rfl⟩
      | _ => exact .inl (congrArg Value.list (List.append_nil xs))
    cases hget : a.get f with
    | null => exact absurd hget hnull
    | list xs =>
        have hown : a.shows defs f = .list xs := Note.shows_of_list hget
        rcases hnone xs with heq | ⟨ys, hys⟩
        · rw [hown, heq]
        · exact absurd hys (hll xs ys hget)
    | shared origin g =>
        obtain ⟨rfl, -, xs, hxs⟩ := hlist origin g hget
        rcases hnone xs with heq | ⟨ys, hys⟩
        · rw [Note.shows_of_shared hget hxs, heq]
        · exact absurd hys (hsl origin g ys hget)
    | _ =>
        have hown : a.shows defs f = _ := Note.shows_of_get hget fun _ _ h => nomatch h
        rw [hown]
        rfl

section Steps

variable {base : Definitions} {location : String} {depth : Nat} {chain : List String} {k : Kind}
  {done : List String} {a : Note} {defs : Definitions} {f : Field}

/-- **Merging a definition takes over what it says**, in each field. -/
theorem merge_shows {id : String} {d : Note} {m : Note × Definitions}
    (way : UnderWay (alikeCustody False base) k done a)
    (holds : (alikeCustody False base).Holds defs) (hd : defs.find? id = some d) (hk : d.kind = k)
    (hnew : id ∉ done) (hf : f ∈ k.fields) (hm : merge id d a defs = .ok m) :
    m.1.shows m.2 f = (a.shows defs f).takeOver (d.get f) ∧
      ∀ r, r ∉ done → m.2.column f r = defs.column f r := by
  have hadopts : Adopts id a k.fields := fun g _ origin e hget => by
    obtain ⟨he, ho, -⟩ := way.adopted hget
    exact ⟨he, fun h => hnew (h ▸ ho)⟩
  obtain ⟨x, b, c, hx, hb, hbk, hc, hcx⟩ :=
    mergeFields_at d k.fields k.fields_nodup hf a defs hadopts
  have hxm : x = m := by
    unfold merge at hm
    rw [way.kind_eq, hx] at hm
    exact Except.ok.inj hm
  have hway : UnderWay (alikeCustody False base) k (id :: done) x.1 := by
    have hkept := merge_meets ((alikeCustody False base).known holds hd) hk way holds False.elim
    rw [hm] at hkept
    rw [hxm]
    exact hkept.1
  have hlist : ∀ origin g, b.1.get f = .shared origin g →
      g = f ∧ origin ≠ id ∧ ∃ xs, b.2.column f origin = some (.list xs) := by
    intro origin g hget
    rw [hb.value] at hget
    obtain ⟨hg, ho, hlends⟩ := way.adopted hget
    obtain ⟨e, xs, he, -, hxs⟩ := kind_of_lends holds hlends
    refine ⟨hg, fun h => hnew (h ▸ ho), xs, ?_⟩
    rw [hb.column, Definitions.column, he, Option.map_some, hxs]
  have hcolumn : b.2.column f id = some (d.get f) := by
    rw [hb.column, Definitions.column, hd, Option.map_some]
  have hkey : f ∈ b.1.keys := by
    rw [hbk]
    exact way.nested.slotted.mem (way.kind_eq ▸ hf)
  obtain ⟨hshows, hothers⟩ :=
    mergeField_shows hlist hcolumn (holds.2 id d hd).root.unshared hkey hc
  have hbefore : b.1.shows b.2 f = a.shows defs f :=
    hb.shows fun origin g hget => (way.adopted hget).1
  have hafter : x.1.shows x.2 f = c.1.shows c.2 f := hcx.shows fun origin g hget =>
    (hway.adopted (hcx.value.trans hget)).1
  rw [← hxm, hafter, hshows, hbefore]
  refine ⟨rfl, fun r hr => ?_⟩
  rw [hcx.column, hothers r, hb.column]
  intro hget
  rw [hb.value] at hget
  exact hr (way.adopted hget).2.1

/-! ## 4. One reference -/

/-- The definitions of a kind have the same in a field. -/
def Definitions.SameColumn (k : Kind) (f : Field) (defs now : Definitions) : Prop :=
  ∀ id, (defs.find? id).map (·.kind) = some k → now.column f id = defs.column f id

theorem Definitions.SameColumn.refl (k : Kind) (f : Field) (defs : Definitions) :
    defs.SameColumn k f defs := fun _ _ => rfl

/-- Whatever is expanded below leaves the field as it is in the definitions of the kind: it is a
    nest field, which no run changes, or they are of a higher kind. -/
theorem expandTo_sameColumn {b : Note} {y : Expanded Note}
    (holds : (alikeCustody False base).Holds defs) (hb : b.Throughout (Note.Ready False))
    (hlow : f.nests = true ∨ b.kind.isGroup = false ∧ b.kind.rank < k.rank)
    (h : expandTo location depth chain defs b = .ok y) :
    defs.SameColumn k f y.definitions := by
  intro id hid
  obtain ⟨d, hd, hdk⟩ := Option.map_eq_some_iff.mp hid
  unfold Definitions.column
  rcases hlow with hnests | ⟨hg, hlt⟩
  · obtain ⟨c, hc, hcd⟩ := holds.1.find? hd
    obtain ⟨e, he, hce⟩ := (expandTo_settles holds hb h).2.2.1.find?_now hc
    rw [hd, he, Option.map_some, Option.map_some, hce.nests f hnests, hcd.nests f hnests]
  · have hspared := expandTo_spares base location depth k.rank holds hb hg hlt h
    rw [hd, hspared id d hd (Nat.le_of_eq (congrArg Kind.rank hdk.symm))]

/-- A field that nests nothing belongs to kinds that are no groups. -/
theorem Kind.isGroup_of_not_nests {k : Kind} {f : Field} (hf : f ∈ k.fields)
    (hn : f.nests = false) : k.isGroup = false := by
  refine Kind.isGroup_of_field hf (Bool.eq_false_iff.mpr fun hl => ?_)
  rw [Field.nests_of_alwaysList hl] at hn
  cases hn

/-- What a field shows stays if the definitions of the kind keep the field. -/
theorem UnderWay.shows_eq {now : Definitions} (way : UnderWay (alikeCustody False base) k done a)
    (holds : (alikeCustody False base).Holds defs) (hsame : defs.SameColumn k f now) :
    a.shows now f = a.shows defs f := by
  cases hget : a.get f with
  | shared origin g =>
      obtain ⟨rfl, -, hlends⟩ := way.adopted hget
      obtain ⟨e, xs, he, hek, hxs⟩ := kind_of_lends holds hlends
      have hkind : (defs.find? origin).map (·.kind) = some k := by
        rw [he, Option.map_some, hek]
      have hcolumn : defs.column g origin = some (.list xs) := by
        rw [Definitions.column, he, Option.map_some, hxs]
      rw [Note.shows_of_shared hget hcolumn,
        Note.shows_of_shared hget ((hsame origin hkind).trans hcolumn)]
  | _ =>
      have hne : ∀ origin g, a.get f ≠ .shared origin g := by
        intro origin g h
        rw [hget] at h
        cases h
      rw [Note.shows_of_ne_shared hne, Note.shows_of_ne_shared hne]

/-- The definitions that have not been followed yet are as they were, as far as a field of the kind
    is concerned. -/
def Untouched (base : Definitions) (k : Kind) (f : Field) (done : List String)
    (defs : Definitions) : Prop :=
  ∀ r, r ∉ done → (base.find? r).map (·.kind) = some k → defs.column f r = base.column f r

/-- Kinds of definitions do not change. -/
theorem Definitions.Alike.kind_iff {now : Definitions} (h : base.Alike now) (id : String) :
    (now.find? id).map (·.kind) = (base.find? id).map (·.kind) := by
  cases he : now.find? id with
  | none => rw [h.find?_eq_none he]
  | some e =>
      obtain ⟨d, hd, hde⟩ := h.find? he
      rw [hd, Option.map_some, Option.map_some, hde.kind_eq]

/-- **One reference**: the field takes over what the id gives to it. -/
theorem Followed.contributes {copies : String → Note → Prop} {id : String} {x : Expanded Note}
    (hcopies : ∀ {id now d y}, (alikeCustody False base).Holds now → now.find? id = some d →
      expandTo location depth (chain ++ [id]) now d.asCopy = .ok y → copies id y.result)
    (way : UnderWay (alikeCustody False base) k done a)
    (holds : (alikeCustody False base).Holds defs) (hnew : id ∉ done) (hf : f ∈ k.fields)
    (hitems : f = .items → ¬base.ReplacesItems chain k id)
    (huntouched : Untouched base k f done defs)
    (h : Followed (expandTo location depth) location chain a defs id x) :
    (∃ v, Contributes copies base chain k f id v ∧
      x.result.shows x.definitions f = (a.shows defs f).takeOver v) ∧
    Untouched base k f (id :: done) x.definitions := by
  have hmore : ∀ {now}, Untouched base k f done now → Untouched base k f (id :: done) now :=
    fun hu r hr => hu r fun hm => hr (List.mem_cons_of_mem id hm)
  -- where nothing happens the id gives nothing
  have hidle : (¬∃ d, base.find? id = some d ∧ id ∉ chain ∧
      (d.kind = k ∨ d.kind.isGroup = false ∧ k.nestField? d.kind = some f)) →
      ∃ v, Contributes copies base chain k f id v ∧
        a.shows defs f = (a.shows defs f).takeOver v := by
    intro hnone
    refine ⟨.null, .inr ⟨?_, ?_⟩, (Value.takeOver_null _).symm⟩
    · rintro ⟨d, hd, hc, -, hg, hn⟩
      exact hnone ⟨d, hd, hc, .inr ⟨hg, hn⟩⟩
    · refine (lent_eq_null (fun d hd hdk => ?_) f).symm
      exact Classical.byContradiction fun hc => hnone ⟨d, hd, hc, .inl hdk⟩
  cases h with
  | unknown hn =>
      refine ⟨hidle ?_, hmore huntouched⟩
      rintro ⟨d, hd, -⟩
      rw [holds.1.find?_eq_none hn] at hd
      cases hd
  | circular hd hc =>
      refine ⟨hidle ?_, hmore huntouched⟩
      rintro ⟨d, -, hnot, -⟩
      exact hnot hc
  | @merged e m he hc hek hm =>
      obtain ⟨d, hd, hde⟩ := holds.1.find? he
      have hdk : d.kind = k := hde.kind_eq.symm.trans (hek.trans way.kind_eq)
      have hvalue : e.get f = d.get f := by
        have hcolumn := huntouched id hnew (by rw [hd, Option.map_some, hdk])
        rw [Definitions.column, Definitions.column, hd, he] at hcolumn
        exact Option.some.inj hcolumn
      obtain ⟨hshows, hothers⟩ := merge_shows way holds he (hek.trans way.kind_eq) hnew hf hm
      refine ⟨⟨d.get f, .inr ⟨?_, (lent_of_find? hd hdk hc f).symm⟩, hvalue ▸ hshows⟩, ?_⟩
      · rintro ⟨d', hd', -, hne, -⟩
        rw [hd] at hd'
        cases hd'
        exact hne hdk
      · intro r hr hrk
        rw [hothers r fun hm => hr (List.mem_cons_of_mem id hm)]
        exact hmore huntouched r hr hrk
  | @inserted e g y he hc hek hg hgroup hy =>
      obtain ⟨d, hd, hde⟩ := holds.1.find? he
      rw [way.kind_eq, hde.kind_eq] at hek
      rw [way.kind_eq, hde.kind_eq] at hg
      rw [hde.kind_eq] at hgroup
      obtain ⟨hmem, hfields⟩ := Kind.nestField?_mem hg
      have hready := Custody.ready_copy ((alikeCustody False base).known holds he)
      have hsame : defs.SameColumn k f y.definitions := by
        refine expandTo_sameColumn holds hready ?_ hy
        cases hnests : f.nests with
        | true => exact .inl rfl
        | false =>
            have hk := Kind.isGroup_of_not_nests hf hnests
            have hck : e.asCopy.kind = d.kind := hde.kind_eq
            rw [hck]
            exact .inr ⟨hgroup, Kind.rank_lt_of_nestField? hk hgroup hg⟩
      have hkept := way.shows_eq holds hsame
      refine ⟨?_, fun r hr hrk => ?_⟩
      · by_cases hgf : g = f
        · subst hgf
          have hinserts : base.Inserts chain k id g := ⟨d, hd, hc, hek, hgroup, hg⟩
          have hl : g.alwaysList = true := by
            refine Bool.of_not_eq_false fun hl => ?_
            obtain ⟨hdi, rfl⟩ := Kind.items_of_nestField? hg hl
            refine hitems rfl ⟨?_, hc, hmem⟩
            rw [hd, Option.map_some, hdi]
          obtain ⟨vs, hvs⟩ := way.nested.slotted.lists g (way.kind_eq ▸ hfields) hl
          have hkey : g ∈ a.keys := way.nested.slotted.mem (way.kind_eq ▸ hfields)
          have hget : (a.insert g y.result).get g = .list (vs ++ [.note y.result]) := by
            unfold Note.insert
            rw [if_pos hl, Note.push, Note.get_set_self _ hkey, hvs]
            rfl
          have hbefore : a.shows defs g = .list vs := Note.shows_of_list hvs
          have hafter : (a.insert g y.result).shows y.definitions g =
              .list (vs ++ [.note y.result]) := Note.shows_of_list hget
          refine ⟨.list [.note y.result], .inl ⟨hinserts, _, hcopies holds he hy, rfl⟩, ?_⟩
          rw [hafter, hbefore]
          rfl
        · have hget : (a.insert g y.result).get f = a.get f := by
            unfold Note.insert
            split
            · exact Note.get_set_of_ne a _ fun h => hgf h.symm
            · exact Note.get_set_of_ne a _ fun h => hgf h.symm
          have hshows : (a.insert g y.result).shows y.definitions f = a.shows y.definitions f := by
            unfold Note.shows
            rw [hget]
          rw [hshows, hkept]
          refine hidle ?_
          rintro ⟨d', hd', -, h⟩
          rw [hd] at hd'
          cases hd'
          rcases h with h | ⟨-, h⟩
          · exact hek h
          · rw [hg] at h
            exact hgf (Option.some.inj h)
      · rw [hsame r ((holds.1.kind_iff r).trans hrk)]
        exact hmore huntouched r hr hrk
  | @refused e he hc hek hrefused =>
      refine ⟨hidle ?_, hmore huntouched⟩
      rintro ⟨d', hd', -, h⟩
      obtain ⟨d, hd, hde⟩ := holds.1.find? he
      rw [hd] at hd'
      cases hd'
      rw [hde.kind_eq, way.kind_eq] at hek
      rw [hde.kind_eq, way.kind_eq] at hrefused
      rcases h with h | ⟨hg, h⟩
      · exact hek h
      · rw [hrefused f h] at hg
        cases hg

/-! ## 5. All references -/

/-- **A row of references**: the field is composed of what it was and of what the ids give to it. -/
theorem Course.composes (copies : String → Note → Prop) {ids : List String} {b : Note}
    {last : Definitions} {logs : List Log}
    (hcopies : ∀ {id now d y}, (alikeCustody False base).Holds now → now.find? id = some d →
      expandTo location depth (chain ++ [id]) now d.asCopy = .ok y → copies id y.result)
    (hf : f ∈ k.fields) (hids : ids.Nodup) (hnew : ∀ id ∈ ids, id ∉ done)
    (hitems : f = .items → ∀ id ∈ ids, ¬base.ReplacesItems chain k id)
    (huntouched : Untouched base k f done defs)
    (h : Course base (expandTo location depth) location chain k done a defs ids b last logs) :
    ∃ vs, List.Forall₂ (Contributes copies base chain k f) ids vs ∧
      b.shows last f = Value.compose (a.shows defs f :: vs) := by
  induction h with
  | nil way holds => exact ⟨[], .nil, (Value.compose_singleton _).symm⟩
  | @cons done a defs id ids x b last logs way holds step rest ih =>
      obtain ⟨hid, hids⟩ := List.nodup_cons.mp hids
      obtain ⟨hfirst, hnew⟩ := List.forall_mem_cons.mp hnew
      obtain ⟨⟨v, hv, hshows⟩, hstill⟩ := step.contributes hcopies way holds hfirst hf
        (fun he => hitems he id List.mem_cons_self) huntouched
      have hlater : ∀ r ∈ ids, r ∉ id :: done := by
        intro r hr hm
        rcases List.mem_cons.mp hm with rfl | hm
        · exact hid hr
        · exact hnew r hr hm
      obtain ⟨vs, hvs, hlast⟩ := ih hids hlater
        (fun he r hr => hitems he r (List.mem_cons_of_mem id hr)) hstill
      refine ⟨v :: vs, .cons hv hvs, ?_⟩
      rw [hlast, hshows, Value.compose_takeOver]

end Steps

/-- Definitions that are alike have grown. -/
theorem Definitions.Alike.grown {defs now : Definitions} (h : defs.Alike now) : defs.Grown now where
  kinds := h.kind_iff
  lists origin g := by
    unfold Definitions.sharedList
    cases hd : defs.find? origin with
    | none => exact List.nil_prefix
    | some d =>
        obtain ⟨e, he, hde⟩ := h.find?_now hd
        rw [he]
        dsimp only
        rcases hde.lists g with heq | ⟨vs, more, hvs, hmore⟩
        · have hitems : (e.get g).items = (d.get g).items := congrArg Value.items heq
          exact hitems ▸ List.prefix_rfl
        · rw [hvs, hmore]
          exact List.prefix_append vs more

/-- **An expanded copy of the definition of an id**, as it stands at the time: it is alike the one
    that the id had in the beginning. -/
def CopyOf (location : String) (chain : List String) (defs : Definitions) (id : String)
    (c : Note) : Prop :=
  ∃ now d depth x, defs.Alike now ∧ now.find? id = some d ∧
    expandTo location depth (chain ++ [id]) now d.asCopy = .ok x ∧ x.result = c

section Run

variable {location : String} {depth : Nat} {chain : List String} {a : Note} {defs : Definitions}
  {x : Expanded Note}

/-- What is expanded below leaves the field as it is in the definitions of the kind. -/
theorem expandFields_sameColumn {base : Definitions} {b : Note} {z : Expanded Note} {f : Field}
    (holds : (alikeCustody False base).Holds defs) (hb : b.Nested)
    (hbelow : ∀ c ∈ b.children, c.Throughout (Note.Ready False)) (hf : f ∈ b.kind.fields)
    (h : expandFields (expandTo location depth) chain { b with partials := [] } defs
      b.kind.nestFields = .ok z) : defs.SameColumn b.kind f z.definitions := by
  have hdown := expandFields_logs (P := fun _ _ => True)
    (I := fun later => (alikeCustody False base).Holds later ∧ defs.SameColumn b.kind f later)
    b.kind.nestFields b.kind.nestFields_nodup (fun g hg c hc later y hlater hy => by
      have hchild : c ∈ b.children := Note.mem_children.mpr ⟨g, hg, hc⟩
      have hready := hbelow c hchild
      have hlow : f.nests = true ∨ c.kind.isGroup = false ∧ c.kind.rank < b.kind.rank := by
        cases hnests : f.nests with
        | true => exact .inl rfl
        | false =>
            exact .inr (hb.kind_of_child (Kind.isGroup_of_not_nests hf hnests) hchild)
      refine ⟨⟨(expandTo_settles hlater.1 hready hy).2.2, fun id hid => ?_⟩, trivial⟩
      have hkind : (later.find? id).map (·.kind) = some b.kind := by
        rw [hlater.1.1.kind_iff id, ← holds.1.kind_iff id]
        exact hid
      rw [expandTo_sameColumn hlater.1 hready hlow hy id hkind, hlater.2 id hid])
    ⟨holds, .refl b.kind f defs⟩ h
  exact hdown.1.2

/-- **What a field comes to in a whole run.** -/
theorem expandTo_composes (hdefs : ∀ id d, defs.find? id = some d → d.Throughout Note.Fresh)
    (ha : a.Throughout Note.Fresh) (hnodup : a.partials.Nodup) {f : Field}
    (hf : f ∈ a.kind.fields)
    (hitems : f = .items → ∀ id ∈ queue defs chain a, ¬defs.ReplacesItems chain a.kind id)
    (h : expandTo location depth chain defs a = .ok x) :
    ∃ vs, List.Forall₂ (Contributes (CopyOf location chain defs) defs chain a.kind f)
        (queue defs chain a) vs ∧
      if f ∈ a.kind.nestFields then
        (Value.compose (a.get f :: vs)).Becomes (ExpandsTo location chain defs) (x.result.get f)
      else x.result.shows x.definitions f = Value.compose (a.get f :: vs) := by
  cases depth with
  | zero => cases h
  | succ depth =>
      have horderly : ∀ {c : Note}, c.Throughout Note.Fresh → c.Throughout (Note.Orderly False) :=
        fun hc => hc.mono fun _ h => ⟨h, False.elim⟩
      have hI : (alikeCustody False defs).Holds defs :=
        alikeCustody_holds fun id d hd => horderly (hdefs id d hd)
      obtain ⟨b, now, logs, z, hcourse, hbk, hbn, hbelow, hnow, hz, rfl⟩ :=
        expandTo_course hI ((horderly ha).mono fun _ h => h.ready) h
      have hown : a.shows defs f = a.get f := Note.shows_of_ne_shared (ha.root.unshared f)
      -- after the references: what the field shows, and that it goes on to show it
      have hfollowed : ∃ vs,
          List.Forall₂ (Contributes (CopyOf location chain defs) defs chain a.kind f)
            (queue defs chain a) vs ∧ b.shows now f = Value.compose (a.get f :: vs) ∧
          ∀ later, now.SameColumn a.kind f later → b.shows later f = b.shows now f := by
        rcases hcourse with ⟨hnil, rfl, rfl, -⟩ | hcourse
        · refine ⟨[], ?_, ?_, fun later _ => ?_⟩
          · rw [queue_of_partials_nil now chain hnil]
            exact .nil
          · rw [hown, Value.compose_singleton]
          · rw [hown, Note.shows_of_ne_shared (ha.root.unshared f)]
        · obtain ⟨vs, hvs, hshows⟩ := hcourse.composes (CopyOf location chain defs)
            (fun hlater hd hy => ⟨_, _, depth, _, hlater.1, hd, hy, rfl⟩) hf
            (queue_nodup defs chain hnodup) (fun _ _ => List.not_mem_nil) hitems
            (fun _ _ _ => rfl)
          rw [hown] at hshows
          obtain ⟨done, hway, -⟩ := hcourse.ends
          exact ⟨vs, hvs, hshows, fun later hsame => hway.shows_eq hnow hsame⟩
      obtain ⟨vs, hvs, hshows, hstays⟩ := hfollowed
      have hlowered : Lowered (ExpandsTo location chain defs) a.kind.nestFields
          { b with partials := [] } now z.result z.definitions :=
        expandFields_lowers (expandTo_grows location depth)
          (fun hgrown hy => ⟨depth, _, _, hgrown, hy, rfl⟩) a.kind.nestFields
          a.kind.nestFields_nodup hnow.1.grown hz
      refine ⟨vs, hvs, ?_⟩
      split
      · rename_i hnest
        have hget : b.get f = Value.compose (a.get f :: vs) := by
          rw [← hshows, Note.shows_of_ne_shared]
          exact fun origin g hget => hbn.not_mem_of_shared hget (hbk ▸ hnest)
        rw [← hget]
        exact hlowered.becomes f hnest
      · rename_i hnest
        have hsame : now.SameColumn a.kind f z.definitions := by
          rw [← hbk] at hz hf ⊢
          exact expandFields_sameColumn hnow hbn hbelow hf hz
        have hget : z.result.get f = b.get f := hlowered.others f hnest
        have hlast : z.result.shows z.definitions f = b.shows z.definitions f := by
          unfold Note.shows
          rw [hget]
        rw [hlast, hstays _ hsame, hshows]

end Run

/-! ## 6. The main statement -/

theorem Note.Throughout.and {P Q : Note → Prop} {a : Note} (hP : a.Throughout P)
    (hQ : a.Throughout Q) : a.Throughout fun b => P b ∧ Q b := by
  induction hP with
  | intro here below ih => exact .intro ⟨here, hQ.root⟩ fun b hb => ih b hb (hQ.child hb)

/-- **References are followed breadth first, each once, and the first value wins.** For every
    annotation that does not refer to one id twice, whatever it descends from:

    * the ids that are followed are its own ones and then all that are reached from them through
      definitions of its kind from which it does not descend, the nearer ones first;
    * when it has been expanded, each of its fields is composed of what it was and of what these ids
      give to it, in this order; in a nest field the annotations have become what their own
      expansion makes of them. The items are left out if an id takes their place;
    * it can be expanded, unless it is a group, if nothing in it or in the definitions refers to one
      id twice. -/
theorem fields_composed_breadth_first (defs : Definitions) (chain : List String) (a : Note)
    (ha : a.Throughout Note.Fresh) (hnodup : a.partials.Nodup)
    (hdefs : ∀ id d, defs.find? id = some d → d.Throughout Note.Fresh) :
    (a.partials <+: queue defs chain a ∧ (queue defs chain a).Nodup ∧
      (∀ id, id ∈ queue defs chain a ↔ Leads defs a.kind chain a.partials id) ∧
      (∀ n, reached defs a.kind chain a.partials n <+: queue defs chain a) ∧
      ∃ n, queue defs chain a = reached defs a.kind chain a.partials n) ∧
    (∀ location depth x, expandTo location depth chain defs a = .ok x → ∀ f ∈ a.kind.fields,
      (f = .items → ∀ id ∈ queue defs chain a, ¬defs.ReplacesItems chain a.kind id) →
      ∃ vs, List.Forall₂ (Contributes (CopyOf location chain defs) defs chain a.kind f)
          (queue defs chain a) vs ∧
        if f ∈ a.kind.nestFields then
          (Value.compose (a.get f :: vs)).Becomes (ExpandsTo location chain defs) (x.result.get f)
        else x.result.shows x.definitions f = Value.compose (a.get f :: vs)) ∧
    (a.kind.isGroup = false → (a.Throughout fun b => b.partials.Nodup) →
      (∀ id d, defs.find? id = some d → d.Throughout fun b => b.partials.Nodup) →
      ∀ location depth, a.kind.rank < depth →
        ∃ x, expandTo location depth chain defs a = .ok x) := by
  refine ⟨⟨reached_prefix_queue defs chain a 0, queue_nodup defs chain hnodup,
    mem_queue_iff defs chain a, reached_prefix_queue defs chain a,
    exists_queue_eq_reached defs chain a⟩, ?_, ?_⟩
  · intro location depth x hx f hf hitems
    exact expandTo_composes hdefs ha hnodup hf hitems hx
  · intro hk hrefs hdefrefs location depth hdepth
    have horderly : ∀ {c : Note}, c.Throughout Note.Fresh →
        (c.Throughout fun b => b.partials.Nodup) → c.Throughout (Note.Orderly True) :=
      fun hc hn => (hc.and hn).mono fun _ h => ⟨h.1, fun _ => h.2⟩
    exact exists_expandTo location chain
      (fun id d hd => horderly (hdefs id d hd) (hdefrefs id d hd)) (horderly ha hrefs) hk hdepth

/-- Two operations that refer to each other, and a parameter that the first one refers to. -/
def layeredOperations : Definitions :=
  [("A", (Note.referring .operation ["B", "P"]).set .produces (.list [.text "xml"])),
    ("B", (Note.referring .operation ["A"]).set .produces (.list [.text "json"])),
    ("P", Note.referring .parameter [])]

/-- An operation that refers to the first of them shows what both produce, and has a copy of the
    parameter. -/
theorem fields_composed_of_layeredOperations :
    ∃ x, expand "pets.php" layeredOperations (Note.referring .operation ["A"]) = .ok x ∧
      (∃ vs, List.Forall₂ (Contributes (CopyOf "pets.php" [] layeredOperations) layeredOperations
          [] .operation .produces) ["A", "B", "P"] vs ∧
        x.result.shows x.definitions .produces = Value.compose (.null :: vs)) ∧
      (x.result.shows x.definitions .produces).items.map Value.text? =
        [some "xml", some "json"] ∧
      (x.result.get .parameters).notes.map (·.kind) = [.parameter] := by
  have horderly : ∀ {c : Note}, c.Throughout (Note.Orderly True) → c.Throughout Note.Fresh ∧
      c.Throughout fun b => b.partials.Nodup :=
    fun h => ⟨h.mono fun _ hb => hb.toFresh, h.mono fun _ hb => hb.partials_nodup trivial⟩
  have ha := horderly (Note.Throughout.referring .operation ["A"] fun _ => by decide)
  have hdefs : ∀ id d, layeredOperations.find? id = some d →
      d.Throughout (Note.Orderly True) := by
    intro id d hd
    rcases List.mem_cons.mp (Definitions.mem_of_find? hd) with heq | hd
    · cases heq
      exact .set_list (.referring .operation ["B", "P"] fun _ => by decide) _ (by decide)
    rcases List.mem_cons.mp hd with heq | hd
    · cases heq
      exact .set_list (.referring .operation ["A"] fun _ => by decide) _ (by decide)
    · cases List.mem_singleton.mp hd
      exact .referring .parameter [] fun _ => List.nodup_nil
  obtain ⟨-, hfields, hexists⟩ := fields_composed_breadth_first layeredOperations []
    (Note.referring .operation ["A"]) ha.1 ha.2.root fun id d hd => (horderly (hdefs id d hd)).1
  obtain ⟨x, hx⟩ := hexists rfl ha.2 (fun id d hd => (horderly (hdefs id d hd)).2) "pets.php"
    (expansionDepth layeredOperations (Note.referring .operation ["A"]))
    (rank_lt_expansionDepth _ _)
  have hqueue : queue layeredOperations [] (Note.referring .operation ["A"]) = ["A", "B", "P"] := by
    decide +kernel
  have hseen : ((expand "pets.php" layeredOperations (Note.referring .operation ["A"])).toOption.map
      fun x => ((x.result.shows x.definitions .produces).items.map Value.text?,
        (x.result.get .parameters).notes.map (·.kind))) =
      some ([some "xml", some "json"], [.parameter]) := by
    decide +kernel
  obtain ⟨vs, hvs, hproduces⟩ := hfields "pets.php" _ x hx .produces (by decide) nofun
  rw [hqueue] at hvs
  rw [if_neg (by decide)] at hproduces
  have hx' : expand "pets.php" layeredOperations (Note.referring .operation ["A"]) = .ok x := hx
  rw [hx'] at hseen
  obtain ⟨htexts, hkinds⟩ := Prod.mk.inj (Option.some.inj hseen)
  exact ⟨x, hx, ⟨vs, hvs, hproduces⟩, htexts, hkinds⟩

/-- A group of parameters as a definition. -/
def groupOfParameters : Definitions :=
  [("G", (Note.blank .parameters).set .members (.list [.note (Note.blank .parameter)]))]

/-- The group is followed, and groups of parameters go into that field of operations, but no copy of
    it is there in the end. -/
theorem group_leaves_no_copy :
    (queue groupOfParameters [] (Note.referring .operation ["G"])).map (fun id =>
      (groupOfParameters.find? id).bind fun d => Kind.operation.nestField? d.kind) =
        [some .parameters] ∧
    ∃ x, expand "pets.php" groupOfParameters (Note.referring .operation ["G"]) = .ok x ∧
      (x.result.get .parameters).items.length = 0 := by
  have hempty : ((expand "pets.php" groupOfParameters
      (Note.referring .operation ["G"])).toOption.map fun x =>
        (x.result.get .parameters).items.length) = some 0 := by
    decide +kernel
  refine ⟨by decide +kernel, ?_⟩
  revert hempty
  cases expand "pets.php" groupOfParameters (Note.referring .operation ["G"]) with
  | error e => exact nofun
  | ok x => exact fun h => ⟨x, rfl, Option.some.inj h⟩

end Marginalia
