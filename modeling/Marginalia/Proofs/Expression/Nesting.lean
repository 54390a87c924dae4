import Mathlib.Logic.Relation
import Marginalia.Proofs.Expression.Evaluation
import Marginalia.Proofs.Expression.RoundTrip
import Marginalia.Proofs.Note.Effects
import Marginalia.Proofs.Reading

/-!
# Nested annotations, and what is lost of them

An annotation is written with others inside it, directly or in groups. What comes of them is settled
item by item:

* `Item.Replaces`: an item takes the place of what has been gathered for a field;
* `Tree.Shows`: an annotation stands inside another, at any depth, and at no level does an item
  behind it take its place;
* `Tree.Drops`: a tree without an annotation whose place has been taken, or without a reference in a
  group.

Main statement: `nested_present_unless_replaced`. What is shown is found in the annotation that the
text comes to (`Note.Above`), and what is dropped makes no difference to it. One level of either is
`nested_of_build`, `build_without_replaced` and `build_without_reference`; the rest is induction.
-/

namespace Marginalia

/-- **An annotation is found in another one**, at any depth. -/
def Note.Above : Note → Note → Prop := Relation.ReflTransGen fun a b => b ∈ a.children

/-- The annotations in a group are what it stands for. -/
theorem Note.Written.mem_unwrapped {a b : Note} (h : a.Written) (hgroup : a.kind.isGroup = true)
    (hb : b ∈ a.children) : .note b ∈ a.unwrapped := by
  have hfields : a.kind.nestFields = [.members] ∧ a.kind.fields = [.members] := by
    revert hgroup
    cases a.kind <;> decide
  obtain ⟨f, hf, hb⟩ := Note.mem_children.mp hb
  rw [hfields.1] at hf
  cases List.mem_singleton.mp hf
  have hmem : Field.members ∈ a.kind.fields := by
    rw [hfields.2]
    exact List.mem_cons_self
  obtain ⟨vs, hvs⟩ := h.nested.slotted.lists .members hmem rfl
  rw [hvs] at hb
  rw [Note.unwrapped, if_pos hgroup, hvs]
  exact Value.mem_notes_list.mp hb

theorem Note.children_of_reference {a : Note} (h : a.kind = .reference) : a.children = [] := by
  unfold Note.children
  rw [h]
  rfl

namespace Expression

variable {aliases : Aliases}

/-! ## 1. Items and arguments -/

/-- An item takes the place of what has been gathered for a field. -/
def Item.Replaces (aliases : Aliases) (k : Kind) (f : Field) (item : Item) : Prop :=
  ∃ part, item.eval aliases = .ok part ∧ part.argument.Replaces k f

theorem counts_of_replaces {k : Kind} {f : Field} {part : Part}
    (h : part.argument.Replaces k f) : part.counts = true := by
  obtain ⟨key, v⟩ := part
  cases key with
  | some key => rfl
  | none =>
      cases v with
      | note a => rfl
      | _ => cases h

/-- The parts are what the items come to. -/
theorem mem_parts_iff {items : List Item} {parts : List Part}
    (h : evalItems aliases items = .ok parts) (part : Part) :
    part ∈ parts ↔ ∃ item ∈ items, item.eval aliases = .ok part := by
  induction items generalizing parts with
  | nil =>
      rw [evalItems] at h
      cases h
      exact iff_of_false List.not_mem_nil fun ⟨_, hitem, _⟩ => List.not_mem_nil hitem
  | cons item items ih =>
      rw [evalItems_cons] at h
      obtain ⟨own, hown, hrest⟩ := exists_of_bind_ok h
      obtain ⟨rest, hmore, rfl⟩ := exists_of_map_ok hrest
      rw [List.mem_cons, ih hmore]
      constructor
      · rintro (rfl | ⟨other, hother, heval⟩)
        · exact ⟨item, List.mem_cons_self, hown⟩
        · exact ⟨other, List.mem_cons_of_mem item hother, heval⟩
      · rintro ⟨other, hother, heval⟩
        rcases List.mem_cons.mp hother with rfl | hother
        · exact .inl (Except.ok.inj (heval.symm.trans hown))
        · exact .inr ⟨other, hother, heval⟩

/-- Among the arguments there is one that replaces if there is one among the items. -/
theorem replaces_argumentsOf_iff {k : Kind} {f : Field} {items : List Item} {parts : List Part}
    (h : evalItems aliases items = .ok parts) :
    (∃ arg ∈ argumentsOf parts, arg.Replaces k f) ↔ ∃ item ∈ items, item.Replaces aliases k f := by
  constructor
  · rintro ⟨arg, harg, hreplaces⟩
    obtain ⟨part, hpart, rfl⟩ := List.mem_map.mp harg
    obtain ⟨item, hitem, heval⟩ := (mem_parts_iff h part).mp (List.mem_filter.mp hpart).1
    exact ⟨item, hitem, part, heval, hreplaces⟩
  · rintro ⟨item, hitem, part, heval, hreplaces⟩
    have hpart := (mem_parts_iff h part).mpr ⟨item, hitem, heval⟩
    exact ⟨_, List.mem_map_of_mem (List.mem_filter.mpr ⟨hpart, counts_of_replaces hreplaces⟩),
      hreplaces⟩

/-- What stands around an item among items that come to something. -/
theorem evalItems_around {before after : List Item} {item : Item} {parts : List Part}
    (h : evalItems aliases (before ++ item :: after) = .ok parts) :
    ∃ front part back, evalItems aliases before = .ok front ∧ item.eval aliases = .ok part ∧
      evalItems aliases after = .ok back ∧ parts = front ++ part :: back := by
  rw [evalItems_append, evalItems_cons] at h
  obtain ⟨front, hfront, hall⟩ := exists_of_bind_ok h
  obtain ⟨more, hmore, rfl⟩ := exists_of_map_ok hall
  obtain ⟨part, hpart, hrest⟩ := exists_of_bind_ok hmore
  obtain ⟨back, hback, rfl⟩ := exists_of_map_ok hrest
  exact ⟨front, part, back, hfront, hpart, hback, rfl⟩

/-- The same for an item without a label in an annotation. -/
theorem eval_call_around {name : String} {k : Kind} (hk : kindOf aliases name = .ok (some k))
    {before after : List Item} {t : Tree} {v : Value}
    (hv : (Tree.call name (before ++ t.asItem :: after)).eval aliases = .ok v) :
    ∃ front w back a, evalItems aliases before = .ok front ∧ t.eval aliases = .ok w ∧
      evalItems aliases after = .ok back ∧ v = .note a ∧
      Note.build k (argumentsOf front ++ argumentsOf (⟨none, w⟩ :: back)) = .ok a := by
  rw [eval_call hk] at hv
  obtain ⟨parts, hparts, hbuilt⟩ := exists_of_bind_ok hv
  obtain ⟨front, part, back, hfront, hpart, hback, rfl⟩ := evalItems_around hparts
  rw [eval_asItem] at hpart
  obtain ⟨w, hw, rfl⟩ := exists_of_map_ok hpart
  rw [argumentsOf_append] at hbuilt
  obtain ⟨a, ha, rfl⟩ := exists_of_map_ok hbuilt
  exact ⟨front, w, back, a, hfront, hw, hback, rfl, ha⟩

theorem exists_kind_of_call {name : String} {items : List Item} {a : Note}
    (h : (Tree.call name items).eval aliases = .ok (.note a)) :
    ∃ k, kindOf aliases name = .ok (some k) := by
  rw [Tree.eval] at h
  split at h
  · cases h
  · unfold annotate at h
    split at h
    · cases h
    · cases h
    · rename_i k hk
      exact ⟨k, hk⟩

/-! ## 2. What is shown -/

/-- **An annotation stands inside another**, at any depth, and its place is not taken: neither its
    own nor that of one around it. -/
inductive Tree.Shows (aliases : Aliases) : Tree → Tree → Prop
  | self (t : Tree) : Shows aliases t t
  | inside {name : String} {k c : Kind} {before after : List Item} {t u : Tree}
      (hk : kindOf aliases name = .ok (some k)) (ht : t.Annotates aliases c)
      (hkept : ∀ f, k.nestField? c = some f → ∀ item ∈ after, ¬item.Replaces aliases k f)
      (hu : Shows aliases t u) : Shows aliases (.call name (before ++ t.asItem :: after)) u

theorem arguments_written {front back : List Part} {before after : List Item} {t : Tree} {b : Note}
    (hfront : evalItems aliases before = .ok front) (ht : t.eval aliases = .ok (.note b))
    (hback : evalItems aliases after = .ok back) :
    ∀ arg ∈ argumentsOf front ++ .positional (.note b) :: argumentsOf back, arg.Written := by
  have hparts : ∀ items parts, evalItems aliases items = .ok parts →
      ∀ arg ∈ argumentsOf parts, arg.Written := by
    intro items parts h arg harg
    obtain ⟨part, hpart, rfl⟩ := List.mem_map.mp harg
    exact argument_written (evalItems_written aliases items h part (List.mem_filter.mp hpart).1)
  refine List.forall_mem_append.mpr ⟨hparts _ _ hfront, List.forall_mem_cons.mpr ⟨?_, ?_⟩⟩
  · exact eval_written aliases t ht
  · exact hparts _ _ hback

/-- One level: an annotation is found in the one around it, a group by its members. -/
theorem mem_children_of_call {name : String} {k c : Kind} (hk : kindOf aliases name = .ok (some k))
    {before after : List Item} {t : Tree} (ht : t.Annotates aliases c)
    (hkept : ∀ f, k.nestField? c = some f → ∀ item ∈ after, ¬item.Replaces aliases k f)
    {a b : Note} (ha : (Tree.call name (before ++ t.asItem :: after)).eval aliases = .ok (.note a))
    (hb : t.eval aliases = .ok (.note b)) (hreference : b.kind ≠ .reference) {d : Note}
    (hd : .note d ∈ b.unwrapped) : d ∈ a.children := by
  obtain ⟨front, w, back, a', hfront, hw, hback, ha', hbuild⟩ := eval_call_around hk ha
  cases ha'
  cases hb.symm.trans hw
  obtain ⟨b', hb', hkind⟩ := ht.isNote hb
  cases hb'
  have hwritten := arguments_written hfront hb hback
  obtain ⟨f, hf, hfield, hpresent⟩ := (nested_of_build hwritten hbuild).2 hreference
  rw [hkind] at hfield
  have hnone : ∀ arg ∈ argumentsOf back, ¬arg.Replaces k f := by
    intro arg harg hreplaces
    obtain ⟨item, hitem, hreplaces⟩ :=
      (replaces_argumentsOf_iff hback).mp ⟨arg, harg, hreplaces⟩
    exact hkept f hfield item hitem hreplaces
  refine Note.mem_children.mpr ⟨f, ?_, hpresent hnone d hd⟩
  rw [Note.kind_of_build hbuild]
  exact hf

/-- **What is shown is found**, unless it is a group or a reference. -/
theorem Tree.Shows.above {t u : Tree} (h : t.Shows aliases u) {a c : Note}
    (ha : t.eval aliases = .ok (.note a)) (hc : u.eval aliases = .ok (.note c))
    (hgroup : c.kind.isGroup = false) (hreference : c.kind ≠ .reference) : a.Above c := by
  induction h generalizing a with
  | self t =>
      cases ha.symm.trans hc
      exact .refl
  | @inside name k kind before after t u hk ht hkept _ ih =>
      obtain ⟨front, w, back, a', -, hw, -, -, -⟩ := eval_call_around hk ha
      obtain ⟨b, rfl, -⟩ := ht.isNote hw
      have hb := hw
      have hbelow : b.Above c := ih hb hc
      have hwritten : b.Written := Value.written_note.mp (eval_written aliases t hb)
      rcases Relation.ReflTransGen.cases_head hbelow with rfl | ⟨d, hd, hrest⟩
      · refine .head (mem_children_of_call hk ht hkept ha hb hreference ?_) .refl
        rw [Note.unwrapped, hgroup]
        exact List.mem_cons_self
      · have hplace : b.kind ≠ .reference := by
          intro hkind
          rw [Note.children_of_reference hkind] at hd
          cases hd
        cases hwraps : b.kind.isGroup with
        | true =>
            -- the group itself is not found, but its members take its place
            have hmember := hwritten.mem_unwrapped hwraps hd
            exact .head (mem_children_of_call hk ht hkept ha hb hplace hmember) hrest
        | false =>
            refine .head (mem_children_of_call hk ht hkept ha hb hplace ?_) hbelow
            rw [Note.unwrapped, hwraps]
            exact List.mem_cons_self

/-- **References are listed** in the annotation that they are written in. -/
theorem mem_partials_of_call {name : String} {items : List Item} {a ref : Note} {t : Tree}
    (ha : (Tree.call name items).eval aliases = .ok (.note a)) (ht : t.asItem ∈ items)
    (href : t.eval aliases = .ok (.note ref)) (hkind : ref.kind = .reference) :
    ∀ id ∈ ref.referred, id ∈ a.partials := by
  obtain ⟨k, hk⟩ := exists_kind_of_call ha
  obtain ⟨before, after, rfl⟩ := List.append_of_mem ht
  obtain ⟨front, w, back, a', hfront, hw, hback, ha', hbuild⟩ := eval_call_around hk ha
  cases ha'
  cases href.symm.trans hw
  exact (nested_of_build (arguments_written hfront href hback) hbuild).1 hkind

/-! ## 3. What is dropped -/

/-- **A tree without something that is lost**: an annotation whose place an item behind it takes, or
    a reference in a group, anywhere in the tree. -/
inductive Tree.Drops (aliases : Aliases) : Tree → Tree → Prop
  | replaced {name : String} {k c : Kind} {f : Field} {before after : List Item} {t : Tree}
      (hk : kindOf aliases name = .ok (some k)) (ht : t.Annotates aliases c)
      (hf : k.nestField? c = some f) (hreplaced : ∃ item ∈ after, item.Replaces aliases k f) :
      Drops aliases (.call name (before ++ t.asItem :: after)) (.call name (before ++ after))
  | reference {outer inner : String} {group : Kind} {before after front back : List Item} {t : Tree}
      (hk : kindOf aliases inner = .ok (some group)) (hgroup : group.isGroup = true)
      (ht : t.Annotates aliases .reference) :
      Drops aliases
        (.call outer (before ++ (Tree.call inner (front ++ t.asItem :: back)).asItem :: after))
        (.call outer (before ++ (Tree.call inner (front ++ back)).asItem :: after))
  | argument {name : String} {before after : List Item} {label : Option Atom} {t t' : Tree}
      (h : Drops aliases t t') :
      Drops aliases (.call name (before ++ ⟨label, t⟩ :: after))
        (.call name (before ++ ⟨label, t'⟩ :: after))
  | entry {before after : List Item} {label : Option Atom} {t t' : Tree} (h : Drops aliases t t') :
      Drops aliases (.array (before ++ ⟨label, t⟩ :: after))
        (.array (before ++ ⟨label, t'⟩ :: after))

/-- An annotation whose place is taken makes no difference. -/
theorem eval_without_replaced {name : String} {k c : Kind} {f : Field} {before after : List Item}
    {t : Tree} (hk : kindOf aliases name = .ok (some k)) (ht : t.Annotates aliases c)
    (hf : k.nestField? c = some f) (hreplaced : ∃ item ∈ after, item.Replaces aliases k f)
    {v : Value} (hv : (Tree.call name (before ++ t.asItem :: after)).eval aliases = .ok v) :
    (Tree.call name (before ++ after)).eval aliases = .ok v := by
  obtain ⟨front, w, back, a, hfront, hw, hback, rfl, hbuild⟩ := eval_call_around hk hv
  obtain ⟨b, rfl, rfl⟩ := ht.isNote hw
  have hwithout := build_without_replaced hf ((replaces_argumentsOf_iff hback).mpr hreplaced) hbuild
  rw [eval_call hk, evalItems_append, hfront, hback]
  show (Note.build k (argumentsOf (front ++ back))).map Value.note = _
  rw [argumentsOf_append, hwithout]
  rfl

/-- A reference in a group changes nothing but the list of the group's own references. -/
theorem eval_group_without_reference {inner : String} {group : Kind} {front back : List Item}
    {t : Tree} (hk : kindOf aliases inner = .ok (some group)) (ht : t.Annotates aliases .reference)
    {v : Value} (hv : (Tree.call inner (front ++ t.asItem :: back)).eval aliases = .ok v) :
    ∃ b ids, v = .note b ∧ b.kind = group ∧
      (Tree.call inner (front ++ back)).eval aliases = .ok (.note { b with partials := ids }) := by
  obtain ⟨ps, w, qs, b, hps, hw, hqs, rfl, hbuild⟩ := eval_call_around hk hv
  obtain ⟨ref, rfl, href⟩ := ht.isNote hw
  rw [argumentsOf_note] at hbuild
  obtain ⟨ids, hwithout⟩ := build_without_reference href hbuild
  refine ⟨b, ids, rfl, Note.kind_of_build hbuild, ?_⟩
  rw [eval_call hk, evalItems_append, hps, hqs]
  show (Note.build group (argumentsOf (ps ++ qs))).map Value.note = _
  rw [argumentsOf_append, hwithout]
  rfl

/-- Of a group only the members reach the annotation around it. -/
theorem annotate_group {outer : String} {b : Note} (hgroup : b.kind.isGroup = true)
    (ids : List String) (front back : List Part) :
    annotate aliases outer (front ++ ⟨none, .note { b with partials := ids }⟩ :: back) =
      annotate aliases outer (front ++ ⟨none, .note b⟩ :: back) := by
  unfold annotate
  split
  · rfl
  · rfl
  · rename_i k _
    refine congrArg (Except.map Value.note) ?_
    show Note.build k (argumentsOf _) = Note.build k (argumentsOf _)
    rw [argumentsOf_append, argumentsOf_append]
    exact Note.build_congr_effect (Note.effect_of_group hgroup ids)

/-- A value that comes to the same makes the same of the items around it. -/
theorem evalItems_congr {before after : List Item} {label : Option Atom} {t t' : Tree}
    (h : ∀ v, t.eval aliases = .ok v → t'.eval aliases = .ok v) {parts : List Part}
    (hparts : evalItems aliases (before ++ ⟨label, t⟩ :: after) = .ok parts) :
    evalItems aliases (before ++ ⟨label, t'⟩ :: after) = .ok parts := by
  obtain ⟨front, part, back, hfront, hpart, hback, rfl⟩ := evalItems_around hparts
  have hpart' : Item.eval aliases ⟨label, t'⟩ = .ok part := by
    rw [Item.eval] at hpart ⊢
    split at hpart
    · cases hpart
    · obtain ⟨v, hv, rfl⟩ := exists_of_map_ok hpart
      rw [h v hv]
      rfl
  rw [evalItems_append, evalItems_cons, hfront, hpart', hback]
  rfl

/-- **What is dropped makes no difference.** -/
theorem Tree.Drops.eval {t t' : Tree} (h : t.Drops aliases t') {v : Value}
    (hv : t.eval aliases = .ok v) : t'.eval aliases = .ok v := by
  induction h generalizing v with
  | replaced hk ht hf hreplaced => exact eval_without_replaced hk ht hf hreplaced hv
  | @reference outer inner group before after front back t hk hgroup ht =>
      rw [eval_call_eq] at hv ⊢
      obtain ⟨parts, hparts, hv⟩ := exists_of_bind_ok hv
      obtain ⟨ps, part, qs, hps, hpart, hqs, rfl⟩ := evalItems_around hparts
      rw [eval_asItem] at hpart
      obtain ⟨w, hw, rfl⟩ := exists_of_map_ok hpart
      obtain ⟨b, ids, rfl, rfl, hwithout⟩ := eval_group_without_reference hk ht hw
      rw [evalItems_append, evalItems_cons, hps, eval_asItem, hwithout, hqs]
      exact (annotate_group hgroup ids ps qs).trans hv
  | argument _ ih =>
      rw [eval_call_eq] at hv ⊢
      obtain ⟨parts, hparts, hv⟩ := exists_of_bind_ok hv
      rw [evalItems_congr (fun _ => ih) hparts]
      exact hv
  | entry _ ih =>
      rw [Tree.eval] at hv ⊢
      obtain ⟨parts, hparts, rfl⟩ := exists_of_map_ok hv
      rw [evalItems_congr (fun _ => ih) hparts]
      rfl

/-! ## 4. An operation with a group -/

/-- A parameter of which nothing is said, as it is written. -/
def bareParameter : Derivation .expression :=
  .applied Kind.parameter.written (.ofItems .arguments [])

/-- An operation with a group of parameters, as it is written. -/
def groupedParameters (members : List (Derivation .expression)) : Derivation .expression :=
  .applied Kind.operation.written (.ofItems .arguments [.unlabelled (.nested
    (.applied Kind.parameters.written (.ofItems .arguments
      (members.map fun d => .unlabelled (.nested d)))))])

theorem spellable_bareParameter : bareParameter.Spellable :=
  spellable_applied (Kind.name?_written .parameter) (Derivation.spellable_ofItems nofun)

theorem spellable_groupedParameters {members : List (Derivation .expression)}
    (h : ∀ d ∈ members, d.Spellable) : (groupedParameters members).Spellable := by
  refine spellable_applied (Kind.name?_written .operation) (Derivation.spellable_ofItems ?_)
  refine List.forall_mem_singleton.mpr ?_
  refine spellable_applied (Kind.name?_written .parameters) (Derivation.spellable_ofItems ?_)
  intro d hd
  obtain ⟨member, hmember, rfl⟩ := List.mem_map.mp hd
  exact h member hmember

theorem meaning_groupedParameters (members : List (Derivation .expression)) :
    (groupedParameters members).meaning = .call Kind.operation.written
      [(Tree.call Kind.parameters.written (members.map fun d => d.meaning.asItem)).asItem] := by
  unfold groupedParameters Tree.asItem
  simp only [Derivation.meaning, Derivation.meaning_ofItems, List.map_cons, List.map_nil,
    List.map_map]
  rfl

/-- A parameter of which nothing is said. -/
def silentParameter : Note := ⟨.parameter, none, [], Kind.parameter.fields.map (·, .null)⟩

/-- An operation that has this parameter and nothing else. -/
def operationWithParameter : Note where
  kind := .operation
  partialId := none
  partials := []
  fields := Kind.operation.fields.map fun f =>
    (f, if f = .parameters then .list [.note silentParameter] else f.default)

theorem eval_bareParameter :
    bareParameter.meaning.eval Imports.builtin.entries = .ok (.note silentParameter) := by
  unfold bareParameter
  rw [Derivation.meaning, eval_call (kindOf_written .parameter)]
  rfl

/-- The operation with a reference behind its parameter, as it is written. -/
def parameterAndReference : Derivation .expression :=
  groupedParameters [bareParameter, referenceExpression "limit"]

theorem parse_parameterAndReference :
    parse parameterAndReference.text = .ok (.call Kind.operation.written
      [(Tree.call Kind.parameters.written [bareParameter.meaning.asItem,
        (referenceExpression "limit").meaning.asItem]).asItem]) := by
  have hspellable : parameterAndReference.Spellable :=
    spellable_groupedParameters (List.forall_mem_cons.mpr
      ⟨spellable_bareParameter, List.forall_mem_singleton.mpr (spellable_reference "limit")⟩)
  rw [hspellable.parse_text]
  exact congrArg Except.ok (meaning_groupedParameters _)

theorem evaluate_parameterAndReference :
    evaluate Imports.builtin.entries parameterAndReference.text =
      .ok (.note operationWithParameter) := by
  have hmembers : evalItems Imports.builtin.entries
      [bareParameter.meaning.asItem, (referenceExpression "limit").meaning.asItem] =
        .ok [⟨none, .note silentParameter⟩, ⟨none, .note (referenceNote "limit")⟩] := by
    rw [evalItems_cons, evalItems_cons, eval_asItem, eval_asItem, eval_bareParameter,
      eval_reference]
    rfl
  unfold evaluate
  rw [parse_parameterAndReference]
  dsimp only
  rw [eval_call (kindOf_written .operation), evalItems_cons, eval_asItem,
    eval_call (kindOf_written .parameters), hmembers]
  rfl

/-! ## 5. The main statement -/

/-- **Nested annotations are found unless they are replaced.** A text comes to an annotation. Then
    every annotation that is written inside it, at any depth and in groups too, is found in it, as
    long as no item behind takes its place, at none of the levels, and every reference is listed in
    the annotation that it is written in. But annotations whose place is taken, and references in a
    group, might as well not have been written: the text without them comes to the same. -/
theorem nested_present_unless_replaced (aliases : Aliases) (text : List Char) (root : Note)
    (h : evaluate aliases text = .ok (.note root)) :
    ∃ tree, parse text = .ok tree ∧
      (∀ (u : Tree) (c : Note), tree.Shows aliases u → u.eval aliases = .ok (.note c) →
        c.kind.isGroup = false → c.kind ≠ .reference → root.Above c) ∧
      (∀ (name : String) (items : List Item) (c : Note) (t : Tree) (ref : Note) (id : String),
        tree.Shows aliases (.call name items) →
        (Tree.call name items).eval aliases = .ok (.note c) → t.asItem ∈ items →
        t.eval aliases = .ok (.note ref) → ref.kind = .reference →
        ref.text? .value = some id → id ≠ "" → id ∈ c.partials) ∧
      ∀ tree', tree.Drops aliases tree' → tree'.eval aliases = .ok (.note root) := by
  unfold evaluate at h
  cases htree : parse text with
  | error fault =>
      rw [htree] at h
      cases h
  | ok tree =>
      rw [htree] at h
      refine ⟨tree, rfl, fun u c hu hc => hu.above h hc, ?_, fun tree' hdrops => hdrops.eval h⟩
      intro name items c t ref id _ hc ht href hkind hvalue hid
      refine mem_partials_of_call hc ht href hkind id ?_
      rw [Note.referred, hvalue]
      exact List.mem_filter.mpr ⟨List.mem_cons_self, decide_eq_true hid⟩

/-- Of a group with a parameter and a reference the parameter is found, and the reference might as
    well not have been written. -/
theorem reference_in_group_left_out :
    evaluate Imports.builtin.entries parameterAndReference.text =
        .ok (.note operationWithParameter) ∧
      operationWithParameter.Above silentParameter ∧
      (groupedParameters [bareParameter]).meaning.eval Imports.builtin.entries =
        .ok (.note operationWithParameter) := by
  have hevaluate := evaluate_parameterAndReference
  obtain ⟨tree, htree, hshown, -, hdropped⟩ := nested_present_unless_replaced _ _ _ hevaluate
  cases parse_parameterAndReference.symm.trans htree
  have hkept : ∀ f, Kind.parameters.nestField? .parameter = some f →
      ∀ item ∈ [(referenceExpression "limit").meaning.asItem],
        ¬item.Replaces Imports.builtin.entries .parameters f := by
    rintro f - item hitem ⟨part, hpart, hreplaces⟩
    cases List.mem_singleton.mp hitem
    rw [eval_asItem, eval_reference] at hpart
    cases hpart
    exact absurd hreplaces.2 nofun
  have hgroup : (Tree.call Kind.parameters.written ([] ++ bareParameter.meaning.asItem ::
      [(referenceExpression "limit").meaning.asItem])).Shows Imports.builtin.entries
        bareParameter.meaning :=
    .inside (kindOf_written .parameters) (.call (kindOf_written .parameter) _) hkept (.self _)
  have hshows : (Tree.call Kind.operation.written ([] ++ (Tree.call Kind.parameters.written
      [bareParameter.meaning.asItem, (referenceExpression "limit").meaning.asItem]).asItem ::
        [])).Shows Imports.builtin.entries bareParameter.meaning :=
    .inside (kindOf_written .operation) (.call (kindOf_written .parameters) _) nofun hgroup
  have hdrops : (Tree.call Kind.operation.written ([] ++ (Tree.call Kind.parameters.written
      ([bareParameter.meaning.asItem] ++ (referenceExpression "limit").meaning.asItem ::
        [])).asItem :: [])).Drops Imports.builtin.entries _ :=
    .reference (kindOf_written .parameters) rfl (.call (kindOf_written .reference) _)
  refine ⟨hevaluate, hshown _ silentParameter hshows eval_bareParameter rfl nofun, ?_⟩
  rw [meaning_groupedParameters]
  exact hdropped _ hdrops

end Expression

end Marginalia
