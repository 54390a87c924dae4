import Marginalia.Proofs.Expression.Evaluation
import Marginalia.Proofs.Expression.Literal

/-!
# Groups are as good as their members

Three kinds of annotations only wrap members for the annotation around them. Whether members are
wrapped makes no difference, wherever the group stands among the arguments:

* `evalItems_annotations`: annotations of one kind come to such annotations, or the first fault in
  them ends the evaluation;
* `build_members`: a group is built from its members alone, and never refused;
* `nest_group`, `Gathered.addAll_notes`: a group is gathered as its members are.

Main statement: `group_as_members`, for annotations and for faults alike.
-/

namespace Marginalia

/-! ## 1. Tables -/

/-- Where a group may stand, its members may stand too, and they go to the same field. -/
theorem Kind.nestField?_member {parent group member : Kind} {f : Field}
    (hmember : group.memberKind? = some member) (hf : parent.nestField? group = some f) :
    parent.nestField? member = some f := by
  cases group <;> cases hmember <;> cases parent <;> cases hf <;> rfl

theorem Kind.of_memberKind? {group member : Kind} (hmember : group.memberKind? = some member) :
    group.isGroup = true ∧ group.nestField? member = some .members ∧
      group.fields = [.members] ∧ member ≠ .reference ∧ member.isGroup = false := by
  cases group <;> cases hmember <;> decide

/-! ## 2. Groups -/

/-- The group of some members. -/
def Kind.groupOf (group : Kind) (members : List Value) : Note :=
  ⟨group, none, [], [(.members, .list members)]⟩

theorem Kind.unwrapped_groupOf {group : Kind} (h : group.isGroup = true) (members : List Value) :
    (group.groupOf members).unwrapped = members := if_pos h

section Members

variable {group member : Kind} (hmember : group.memberKind? = some member) {v : Value}
  {vs : List Value}

include hmember

/-- **A group is built from its members alone.** -/
theorem build_members (hvs : ∀ w ∈ v :: vs, w.IsNote member) :
    Note.build group ((v :: vs).map .positional) = .ok (group.groupOf (v :: vs)) := by
  obtain ⟨-, hfield, hfields, hreference, hgroup⟩ := Kind.of_memberKind? hmember
  have hgathers := Gathers.members hreference hgroup hfield rfl hvs
  -- the members are all that is told, and the other attributes are what they are anyway
  have htells : group.Tells [(.text Field.members.key, .list (v :: vs))] Attribute.key
      (fun a => if a = .field .members then .list (v :: vs) else a.default) := by
    have hmem : Attribute.field .members ∈ group.attributes := by
      rw [Kind.field_mem_attributes, hfields]
      exact List.mem_cons_self
    refine ⟨fun _ => .inr rfl, ?_, fun a _ hname => if_neg ?_⟩
    · refine List.forall_mem_singleton.mpr ⟨_, hmem, rfl, ?_⟩
      rw [if_pos rfl]
      exact fit_list fun w _ => fit_anything w
    · rintro rfl
      exact hname List.mem_cons_self
  rw [hgathers.build_eq (List.nodup_singleton _) htells, hfields]
  rfl

/-- A group adds its members to the list that they would go to. -/
theorem nest_group {parent : Kind} {f : Field} (hf : parent.nestField? group = some f)
    (members : List Value) (g : Gathered) :
    g.nest parent (group.groupOf members) = g.extend f.key members := by
  obtain ⟨hgroup, -⟩ := Kind.of_memberKind? hmember
  have hl := Kind.alwaysList_of_isGroup hgroup hf
  have hreference : group ≠ .reference := by
    rintro rfl
    cases hmember
  rw [Gathered.nest_list g hreference hf hl, Kind.unwrapped_groupOf hgroup]

/-- **A group among arguments builds what its members build.** -/
theorem build_group {parent : Kind} {f : Field} (hf : parent.nestField? group = some f)
    (hvs : ∀ w ∈ v :: vs, w.IsNote member) (before after : List Argument) :
    Note.build parent (before ++ .positional (.note (group.groupOf (v :: vs))) :: after) =
      Note.build parent (before ++ ((v :: vs).map .positional ++ after)) := by
  obtain ⟨hwraps, -, -, hreference, hgroup⟩ := Kind.of_memberKind? hmember
  have hfield := Kind.nestField?_member hmember hf
  have hl := Kind.alwaysList_of_isGroup hwraps hf
  have hstep : ∀ g : Gathered,
      g.addAll parent (.positional (.note (group.groupOf (v :: vs))) :: after) =
        g.addAll parent ((v :: vs).map .positional ++ after) := by
    intro g
    rw [← List.singleton_append, Gathered.addAll_append_eq, Gathered.addAll_append_eq,
      Gathered.addAll_singleton, Gathered.addAll_notes hreference hgroup hfield hl hvs]
    exact congrArg (·.bind (Gathered.addAll parent · after)) (nest_group hmember hf _ g)
  refine Note.build_congr ?_
  rw [Gathered.addAll_append_eq, Gathered.addAll_append_eq, funext hstep]

end Members

namespace Expression

/-! ## 3. Members -/

variable {aliases : Aliases}

/-- **Annotations of one kind** come to such annotations, if they come to anything. -/
theorem evalItems_annotations {k : Kind} {ts : List Tree} (hts : ∀ t ∈ ts, t.Annotates aliases k)
    {parts : List Part} (h : evalItems aliases (ts.map Tree.asItem) = .ok parts) :
    ∃ vs : List Value, vs.length = ts.length ∧ (∀ v ∈ vs, v.IsNote k) ∧
      parts = vs.map (Part.mk none) := by
  induction ts generalizing parts with
  | nil =>
      rw [List.map_nil, evalItems] at h
      cases h
      exact ⟨[], rfl, List.forall_mem_nil _, rfl⟩
  | cons t ts ih =>
      obtain ⟨ht, hmore⟩ := List.forall_mem_cons.mp hts
      rw [List.map_cons, evalItems_cons, eval_asItem] at h
      obtain ⟨part, hpart, hall⟩ := exists_of_bind_ok h
      obtain ⟨v, hv, rfl⟩ := exists_of_map_ok hpart
      obtain ⟨rest, hrest, rfl⟩ := exists_of_map_ok hall
      obtain ⟨vs, hlength, hvs, rfl⟩ := ih hmore hrest
      exact ⟨v :: vs, congrArg Nat.succ hlength,
        List.forall_mem_cons.mpr ⟨ht.isNote hv, hvs⟩, rfl⟩

/-- Annotations are arguments as they are. -/
theorem argumentsOf_annotations {k : Kind} {vs : List Value} (hvs : ∀ v ∈ vs, v.IsNote k) :
    argumentsOf (vs.map (Part.mk none)) = vs.map .positional := by
  induction vs with
  | nil => rfl
  | cons v vs ih =>
      obtain ⟨⟨a, rfl, -⟩, hmore⟩ := List.forall_mem_cons.mp hvs
      rw [List.map_cons, argumentsOf_note, ih hmore]
      rfl

/-! ## 4. The main statement -/

/-- **A group is as good as its members.** An annotation has a group among its arguments, whatever
    stands in front of it and behind it, and the members of the group are annotations of the kind
    that it is for, at least one. Then it has the value, or the fault, that it has with the members
    in the place of the group. So have all texts that are read as the one and as the other. -/
theorem group_as_members (aliases : Aliases) {parent group member : Kind} {f : Field}
    (hmember : group.memberKind? = some member) (hf : parent.nestField? group = some f)
    {outer inner : String} (houter : kindOf aliases outer = .ok (some parent))
    (hinner : kindOf aliases inner = .ok (some group)) (before after : List Item)
    {members : List Tree} (hne : members ≠ [])
    (hmembers : ∀ t ∈ members, t.Annotates aliases member) :
    let grouped := Tree.call outer
      (before ++ (Tree.call inner (members.map Tree.asItem)).asItem :: after)
    let bare := Tree.call outer (before ++ (members.map Tree.asItem ++ after))
    grouped.eval aliases = bare.eval aliases ∧
      ∀ text text' : List Char, parse text = .ok grouped → parse text' = .ok bare →
        evaluate aliases text = evaluate aliases text' := by
  intro grouped bare
  have hsame : grouped.eval aliases = bare.eval aliases := by
    rw [eval_call houter, eval_call houter, evalItems_append, evalItems_append, evalItems_append,
      evalItems_cons, eval_asItem, eval_call hinner]
    -- the evaluation goes on in step until the first fault
    cases evalItems aliases before with
    | error fault => rfl
    | ok front =>
        cases hparts : evalItems aliases (members.map Tree.asItem) with
        | error fault => rfl
        | ok parts =>
            obtain ⟨vs, hlength, hvs, rfl⟩ := evalItems_annotations hmembers hparts
            obtain ⟨v, more, rfl⟩ := List.exists_cons_of_length_pos
              (hlength ▸ List.length_pos_of_ne_nil hne)
            have hgroup : (Note.build group (argumentsOf ((v :: more).map (Part.mk none)))).map
                Value.note = .ok (.note (group.groupOf (v :: more))) := by
              rw [argumentsOf_annotations hvs, build_members hmember hvs]
              rfl
            dsimp only [Except.bind]
            rw [hgroup]
            cases evalItems aliases after with
            | error fault => rfl
            | ok back =>
                refine congrArg (Except.map Value.note) ?_
                dsimp only
                rw [argumentsOf_append, argumentsOf_note, argumentsOf_append, argumentsOf_append,
                  argumentsOf_annotations hvs]
                exact build_group hmember hf hvs (argumentsOf front) (argumentsOf back)
  refine ⟨hsame, fun text text' htext htext' => ?_⟩
  unfold evaluate
  rw [htext, htext']
  exact hsame

/-- The group and its members behind a list for the same field, and in front of a reference. -/
theorem group_as_members_behind_list :
    let one := Tree.call Kind.parameter.written
      [⟨some ⟨.name, "name"⟩, .atom ⟨.string, "\"id\""⟩⟩]
    let listed : Item := ⟨some ⟨.name, "parameters"⟩, .array [one.asItem]⟩
    let reference := Tree.call Kind.reference.written [⟨none, .atom ⟨.string, "\"limit\""⟩⟩]
    (Tree.call Kind.operation.written ([listed] ++
        (Tree.call Kind.parameters.written ([one, one].map Tree.asItem)).asItem ::
          [reference.asItem])).eval Imports.builtin.entries =
      (Tree.call Kind.operation.written ([listed] ++ ([one, one].map Tree.asItem ++
        [reference.asItem]))).eval Imports.builtin.entries := by
  intro one listed reference
  have hone : one.Annotates Imports.builtin.entries .parameter := .call (kindOf_written _) _
  have hmembers : ∀ t ∈ [one, one], t.Annotates Imports.builtin.entries .parameter :=
    List.forall_mem_cons.mpr ⟨hone, List.forall_mem_singleton.mpr hone⟩
  exact (group_as_members Imports.builtin.entries rfl rfl (kindOf_written .operation)
    (kindOf_written .parameters) [listed] [reference.asItem] (List.cons_ne_nil _ _) hmembers).1

end Expression

end Marginalia
