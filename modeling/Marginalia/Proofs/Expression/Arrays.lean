import Marginalia.Proofs.Expression.Evaluation
import Marginalia.Proofs.Expression.Printer
import Marginalia.Proofs.Note.Slots

/-!
# Array literals and their nulls

An array is read as a list if its entries have no labels. This module compares the list with what is
written:

* `Tree.Plain`: no array in the tree has a labelled entry or a foreign annotation among its entries,
  arrays inside arrays included;
* `Tree.entrywise`: the value of an array literal if every entry, at every depth, stood for one
  element;
* `Value.withoutNulls`: a list without its nulls, at every depth.

Main statement: `array_literal_without_nulls`. The list that is read has one element for every entry
that is not null, in order. So an array literal keeps every entry if and only if `null` is written
nowhere among them (`Tree.ListsNull`).
-/

namespace Marginalia

/-! ## 1. Lists without their nulls -/

mutual

/-- A list without its nulls, at every depth. What is not a list stays as it is. -/
def Value.withoutNulls : Value → Value
  | .list vs => .list (dropNulls vs)
  | v => v

/-- Values without nulls, at every depth. -/
def dropNulls : List Value → List Value
  | [] => []
  | v :: vs => if v.isNull then dropNulls vs else v.withoutNulls :: dropNulls vs

end

@[simp] theorem Value.withoutNulls_list (vs : List Value) :
    (Value.list vs).withoutNulls = .list (dropNulls vs) := by rw [withoutNulls]

@[simp] theorem Value.isNull_withoutNulls (v : Value) : v.withoutNulls.isNull = v.isNull := by
  cases v with
  | list vs => simp [Value.isNull]
  | _ => rfl

/-- Nulls are removed from the list first or last. -/
theorem dropNulls_eq_filter (vs : List Value) :
    dropNulls vs = (vs.map Value.withoutNulls).filter (!·.isNull) := by
  induction vs with
  | nil => rw [dropNulls]; rfl
  | cons v vs ih =>
      rw [dropNulls, ih]
      cases hv : v.isNull <;> simp [hv]

/-- A list loses nothing if there is no null in it and its elements lose nothing. -/
theorem dropNulls_eq_self_iff (vs : List Value) :
    dropNulls vs = vs ↔ ∀ v ∈ vs, v ≠ .null ∧ v.withoutNulls = v := by
  rw [dropNulls_eq_filter]
  constructor
  · intro h
    have hlength := congrArg List.length h
    have hall : ∀ w ∈ vs.map Value.withoutNulls, (!w.isNull) = true := by
      refine List.length_filter_eq_length_iff.mp (hlength.trans ?_)
      rw [List.length_map]
    rw [List.filter_eq_self.mpr hall] at h
    intro v hv
    refine ⟨?_, List.map_inj_left.mp (h.trans (List.map_id vs).symm) v hv⟩
    rintro rfl
    exact absurd (hall _ (List.mem_map_of_mem hv)) Bool.false_ne_true
  · intro h
    have hsame : vs.map Value.withoutNulls = vs :=
      (List.map_congr_left fun v hv => (h v hv).2).trans (List.map_id vs)
    rw [hsame]
    refine List.filter_eq_self.mpr fun v hv => ?_
    rw [Bool.not_eq_true']
    exact Bool.eq_false_iff.mpr fun hnull => (h v hv).1 (Value.isNull_iff.mp hnull)

namespace Expression

variable {aliases : Aliases}

/-! ## 2. Plain trees -/

/-- **Entries of arrays are plain**: atoms, annotations of a kind, and arrays of plain entries. -/
inductive Tree.Plain (aliases : Aliases) : Tree → Prop
  | atom (a : Atom) : Plain aliases (.atom a)
  | known {t : Tree} {k : Kind} (h : t.Annotates aliases k) : Plain aliases t
  | array {ts : List Tree} (h : ∀ t ∈ ts, Plain aliases t) :
      Plain aliases (.array (ts.map Tree.asItem))

/-- An atom is the name `null`, in any case. -/
def Atom.IsNull (a : Atom) : Prop :=
  a.terminal ≠ .string ∧ a.terminal ≠ .number ∧
    String.ofList (a.text.toList.map Char.toLower) = "null"

instance (a : Atom) : Decidable a.IsNull := inferInstanceAs (Decidable (_ ∧ _ ∧ _))

/-- **A null is written** among the entries of an array, at any depth. -/
inductive Tree.ListsNull : Tree → Prop
  | entry {ts : List Tree} {a : Atom} (h : .atom a ∈ ts) (ha : a.IsNull) :
      ListsNull (.array (ts.map Tree.asItem))
  | nested {ts : List Tree} {t : Tree} (h : t ∈ ts) (ht : ListsNull t) :
      ListsNull (.array (ts.map Tree.asItem))

theorem constant_eq_null_iff (name : String) :
    constant name = .null ↔ String.ofList (name.toList.map Char.toLower) = "null" := by
  unfold constant
  split <;> simp_all

/-- An atom stands for null only if it is the name. -/
theorem Atom.value_eq_null_iff (a : Atom) : a.value = .ok .null ↔ a.IsNull := by
  obtain ⟨terminal, text⟩ := a
  unfold Atom.value Atom.IsNull
  cases terminal with
  | string => simp
  | number =>
      dsimp only
      split
      · cases readWhole text.toList <;> simp [Except.map]
      · simp
  | _ => simp [constant_eq_null_iff]

/-- The value of an atom is neither a list nor foreign. -/
theorem Atom.value_shape {a : Atom} {v : Value} (h : a.value = .ok v) :
    v ≠ .foreign ∧ v.withoutNulls = v := by
  have hconstant : ∀ name, constant name ≠ .foreign ∧
      (constant name).withoutNulls = constant name := by
    intro name
    unfold constant
    split <;> exact ⟨nofun, rfl⟩
  obtain ⟨terminal, text⟩ := a
  unfold Atom.value at h
  split at h
  · cases h
    exact ⟨nofun, rfl⟩
  · split at h
    · obtain ⟨n, -, rfl⟩ := exists_of_map_ok h
      exact ⟨nofun, rfl⟩
    · cases h
      exact ⟨nofun, rfl⟩
  · cases h
    exact hconstant text

theorem arrayValue_ne_foreign (parts : List Part) : arrayValue parts ≠ .foreign := by
  unfold arrayValue
  dsimp only
  split <;> exact nofun

theorem eval_array (items : List Item) :
    (Tree.array items).eval aliases = (evalItems aliases items).map arrayValue := by
  rw [Tree.eval]

/-- A plain tree is never a foreign annotation. -/
theorem Tree.Plain.ne_foreign {t : Tree} (h : t.Plain aliases) {v : Value}
    (hv : t.eval aliases = .ok v) : v ≠ .foreign := by
  cases h with
  | atom a =>
      rw [Tree.eval] at hv
      exact (Atom.value_shape hv).1
  | known h =>
      obtain ⟨a, rfl, -⟩ := h.isNote hv
      exact Value.noConfusion
  | array h =>
      rw [eval_array] at hv
      obtain ⟨parts, -, rfl⟩ := exists_of_map_ok hv
      exact arrayValue_ne_foreign parts

/-! ## 3. One array -/

section Rows

variable {α β γ ε : Type} {xs : List α} {ys : List β}

/-- The results of a row of steps, one for each. -/
theorem forall₂_of_mapM_ok {f : α → Except ε β} (h : xs.mapM f = .ok ys) :
    List.Forall₂ (fun x y => f x = .ok y) xs ys := by
  induction xs generalizing ys with
  | nil =>
      cases h
      exact .nil
  | cons x xs ih =>
      rw [List.mapM_cons] at h
      obtain ⟨y, hy, hrest⟩ := exists_of_bind_ok h
      obtain ⟨rest, hmore, hpure⟩ := exists_of_bind_ok hrest
      cases hpure
      exact .cons hy (ih hmore)

theorem mapM_eq_map_mapM {f : α → Except ε γ} {g : α → Except ε β} {φ : β → γ}
    (h : ∀ x ∈ xs, f x = (g x).map φ) : xs.mapM f = (xs.mapM g).map (·.map φ) := by
  induction xs with
  | nil => rfl
  | cons x xs ih =>
      obtain ⟨hx, hmore⟩ := List.forall_mem_cons.mp h
      rw [List.mapM_cons, List.mapM_cons, hx, ih hmore]
      cases g x with
      | error e => rfl
      | ok y => cases xs.mapM g <;> rfl

/-- What holds of all on one side holds of all on the other if it does so pair by pair. -/
theorem forall_mem_iff_of_forall₂ {R : α → β → Prop} {P : α → Prop} {Q : β → Prop}
    (h : List.Forall₂ R xs ys) (hpair : ∀ x ∈ xs, ∀ y, R x y → (P x ↔ Q y)) :
    (∀ x ∈ xs, P x) ↔ ∀ y ∈ ys, Q y := by
  induction h with
  | nil => exact ⟨fun _ => nofun, fun _ => nofun⟩
  | cons hxy _ ih =>
      obtain ⟨hfirst, hmore⟩ := List.forall_mem_cons.mp hpair
      rw [List.forall_mem_cons, List.forall_mem_cons, hfirst _ hxy, ih hmore]

end Rows

/-- Items without labels come to what their trees come to. -/
theorem evalItems_map_asItem (ts : List Tree) :
    evalItems aliases (ts.map Tree.asItem) =
      (ts.mapM (Tree.eval aliases)).map (·.map (Part.mk none)) := by
  induction ts with
  | nil => rw [List.map_nil, evalItems]; rfl
  | cons t ts ih =>
      rw [List.map_cons, evalItems_cons, eval_asItem, ih, List.mapM_cons]
      cases t.eval aliases with
      | error fault => rfl
      | ok v => cases ts.mapM (Tree.eval aliases) <;> rfl

/-- Of values without keys an array keeps all but the nulls. -/
theorem arrayValue_unlabelled {vs : List Value} (h : ∀ v ∈ vs, v ≠ .foreign) :
    arrayValue (vs.map (Part.mk none)) = .list (vs.filter (!·.isNull)) := by
  have hkept : (vs.map (Part.mk none)).filter Part.counts =
      (vs.filter (!·.isNull)).map (Part.mk none) := by
    rw [List.filter_map]
    refine congrArg _ (List.filter_congr fun v hv => ?_)
    cases v with
    | foreign => exact absurd rfl (h _ hv)
    | _ => rfl
  unfold arrayValue
  rw [hkept]
  cases vs.filter (!·.isNull) with
  | nil => rfl
  | cons v vs => simp [Function.comp_def]

/-- **One array**: the list of what the entries come to, without the nulls. -/
theorem eval_array_plain {ts : List Tree} (h : ∀ t ∈ ts, t.Plain aliases) :
    (Tree.array (ts.map Tree.asItem)).eval aliases =
      (ts.mapM (Tree.eval aliases)).map fun vs => .list (vs.filter (!·.isNull)) := by
  rw [eval_array, evalItems_map_asItem]
  cases hvs : ts.mapM (Tree.eval aliases) with
  | error fault => rfl
  | ok vs =>
      have hforeign : ∀ v ∈ vs, v ≠ .foreign :=
        (forall_mem_iff_of_forall₂ (P := fun _ => True) (forall₂_of_mapM_ok hvs)
          fun t ht v hv => iff_of_true trivial ((h t ht).ne_foreign hv)).mp fun _ _ => trivial
      exact congrArg Except.ok (arrayValue_unlabelled hforeign)

/-! ## 4. Arrays in arrays -/

mutual

/-- The value of an array literal entry for entry, at every depth. -/
def Tree.entrywise (aliases : Aliases) : Tree → Except Fault Value
  | .array items => (entrywiseItems aliases items).map .list
  | .atom a => a.value
  | .bare name => (Tree.bare name).eval aliases
  | .call name arguments => (Tree.call name arguments).eval aliases

/-- The value of an entry, whatever its label is. -/
def Item.entrywise (aliases : Aliases) : Item → Except Fault Value
  | ⟨_, tree⟩ => tree.entrywise aliases

/-- The values of entries, one for each. -/
def entrywiseItems (aliases : Aliases) : List Item → Except Fault (List Value)
  | [] => .ok []
  | item :: more => match item.entrywise aliases with
    | .error fault => .error fault
    | .ok v => (entrywiseItems aliases more).map (v :: ·)

end

theorem entrywise_array (ts : List Tree) :
    (Tree.array (ts.map Tree.asItem)).entrywise aliases =
      (ts.mapM (Tree.entrywise aliases)).map .list := by
  have hitems : entrywiseItems aliases (ts.map Tree.asItem) =
      ts.mapM (Tree.entrywise aliases) := by
    induction ts with
    | nil => rw [List.map_nil, entrywiseItems]; rfl
    | cons t ts ih =>
        rw [List.map_cons, entrywiseItems, Tree.asItem, Item.entrywise, ih, List.mapM_cons]
        cases t.entrywise aliases <;> rfl
  rw [Tree.entrywise, hitems]

/-- An annotation stands for itself. -/
theorem Tree.Annotates.entrywise {k : Kind} {t : Tree} (h : t.Annotates aliases k) :
    t.entrywise aliases = t.eval aliases := by
  cases h <;> rw [Tree.entrywise]

/-- **Arrays in arrays**: reading takes the nulls out at every depth, and nothing else. -/
theorem Tree.Plain.eval_eq {t : Tree} (h : t.Plain aliases) :
    t.eval aliases = (t.entrywise aliases).map Value.withoutNulls := by
  induction h with
  | atom a =>
      rw [Tree.eval, Tree.entrywise]
      cases hv : a.value with
      | error fault => rfl
      | ok v => exact congrArg Except.ok (Atom.value_shape hv).2.symm
  | @known t k h =>
      rw [h.entrywise]
      cases hv : t.eval aliases with
      | error fault => rfl
      | ok v =>
          obtain ⟨a, rfl, -⟩ := h.isNote hv
          rfl
  | @array ts h ih =>
      rw [eval_array_plain h, entrywise_array, mapM_eq_map_mapM ih]
      cases ts.mapM (Tree.entrywise aliases) with
      | error fault => rfl
      | ok vs =>
          refine congrArg Except.ok ?_
          rw [Value.withoutNulls_list, dropNulls_eq_filter]

/-- Only the name stands for null. -/
theorem Tree.Plain.null_iff {t : Tree} (h : t.Plain aliases) {v : Value}
    (hv : t.entrywise aliases = .ok v) : v = .null ↔ ∃ a : Atom, t = .atom a ∧ a.IsNull := by
  cases h with
  | atom a =>
      rw [Tree.entrywise] at hv
      have hsame : a.value = .ok .null ↔ v = .null := by rw [hv, Except.ok.injEq]
      rw [← hsame, Atom.value_eq_null_iff]
      simp
  | known h =>
      rw [h.entrywise] at hv
      obtain ⟨a, rfl, -⟩ := h.isNote hv
      cases h <;> simp
  | array h =>
      rw [entrywise_array] at hv
      obtain ⟨vs, -, rfl⟩ := exists_of_map_ok hv
      simp

theorem asItem_injective : Function.Injective Tree.asItem := fun _ _ h => congrArg Item.value h

theorem listsNull_array_iff {ts : List Tree} :
    (Tree.array (ts.map Tree.asItem)).ListsNull ↔
      ∃ t ∈ ts, (∃ a : Atom, t = .atom a ∧ a.IsNull) ∨ t.ListsNull := by
  constructor
  · intro h
    generalize hitems : Tree.array (ts.map Tree.asItem) = literal at h
    cases h with
    | entry h ha =>
        obtain rfl := List.map_injective_iff.mpr asItem_injective (Tree.array.inj hitems)
        exact ⟨_, h, .inl ⟨_, rfl, ha⟩⟩
    | nested h ht =>
        obtain rfl := List.map_injective_iff.mpr asItem_injective (Tree.array.inj hitems)
        exact ⟨_, h, .inr ht⟩
  · rintro ⟨_, ht, ⟨a, rfl, ha⟩ | hlists⟩
    · exact .entry ht ha
    · exact .nested ht hlists

/-- **Nothing is taken out exactly if no null is written.** -/
theorem Tree.Plain.withoutNulls_iff {t : Tree} (h : t.Plain aliases) {v : Value}
    (hv : t.entrywise aliases = .ok v) : v.withoutNulls = v ↔ ¬t.ListsNull := by
  induction h generalizing v with
  | atom a =>
      rw [Tree.entrywise] at hv
      exact iff_of_true (Atom.value_shape hv).2 nofun
  | known h =>
      rw [h.entrywise] at hv
      obtain ⟨a, rfl, -⟩ := h.isNote hv
      refine iff_of_true rfl ?_
      cases h <;> exact nofun
  | @array ts h ih =>
      rw [entrywise_array] at hv
      obtain ⟨vs, hvs, rfl⟩ := exists_of_map_ok hv
      rw [Value.withoutNulls_list, Value.list.injEq, dropNulls_eq_self_iff, listsNull_array_iff,
        ← forall_mem_iff_of_forall₂ (forall₂_of_mapM_ok hvs) fun t ht v hv =>
          and_congr (not_congr ((h t ht).null_iff hv)) (ih t ht hv) |>.symm]
      push Not
      rfl

/-! ## 5. The main statement -/

/-- **An array literal is read without its nulls.** The entries of an array literal are plain: none
    has a label or is a foreign annotation, in the arrays inside it neither. Then it is read as the
    list of what its entries come to, in order and one element for each, but for the nulls: these
    are left out, of the arrays inside it too. The literal is read entry for entry exactly if no
    null is written in it; and if an entry has a fault, it has the first one. -/
theorem array_literal_without_nulls (aliases : Aliases) (ts : List Tree)
    (h : ∀ t ∈ ts, t.Plain aliases) :
    let literal := Tree.array (ts.map Tree.asItem)
    literal.eval aliases =
        (ts.mapM (Tree.eval aliases)).map (fun vs => .list (vs.filter (!·.isNull))) ∧
      literal.eval aliases = (literal.entrywise aliases).map Value.withoutNulls ∧
      ∀ vs, ts.mapM (Tree.entrywise aliases) = .ok vs →
        (literal.eval aliases = .ok (.list vs) ↔ ¬literal.ListsNull) := by
  intro literal
  have hplain : literal.Plain aliases := .array h
  refine ⟨eval_array_plain h, hplain.eval_eq, fun vs hvs => ?_⟩
  have hliteral : literal.entrywise aliases = .ok (.list vs) := by
    rw [entrywise_array, hvs]
    rfl
  rw [← hplain.withoutNulls_iff hliteral, hplain.eval_eq, hliteral]
  exact ⟨Except.ok.inj, congrArg Except.ok⟩

/-- The entries of the array in `enum={1, null, {NULL, "a"}}`. -/
def sampleEntries : List Tree :=
  [.atom ⟨.number, "1"⟩, .atom ⟨.name, "null"⟩,
    .array ([.atom ⟨.name, "NULL"⟩, .atom ⟨.string, "\"a\""⟩].map Tree.asItem)]

/-- Of five values that are written, two of them in an inner array, three are read. -/
theorem array_literal_loses_nulls :
    parse "@SWG\\Parameter(enum=\x7b1, null, \x7bNULL, \"a\"\x7d\x7d)".toList =
        .ok (.call Kind.parameter.written
          [⟨some ⟨.name, "enum"⟩, .array (sampleEntries.map Tree.asItem)⟩]) ∧
      (∀ t ∈ sampleEntries, t.Plain Imports.builtin.entries) ∧
      sampleEntries.mapM (Tree.entrywise Imports.builtin.entries) =
        .ok [.int 1, .null, .list [.null, .text "a"]] ∧
      (Tree.array (sampleEntries.map Tree.asItem)).eval Imports.builtin.entries =
        .ok (.list [.int 1, .list [.text "a"]]) ∧
      (Tree.array (sampleEntries.map Tree.asItem)).ListsNull := by
  have hparse : parse "@SWG\\Parameter(enum=\x7b1, null, \x7bNULL, \"a\"\x7d\x7d)".toList = _ :=
    parse_eq_ok_iff.mpr ⟨.applied Kind.parameter.written (.ofItems .arguments
      [.assignment "enum" (.array (.ofItems .array [.unlabelled (.leaf .number "1"),
        .unlabelled (.leaf .name "null"), .unlabelled (.array (.ofItems .array
          [.unlabelled (.leaf .name "NULL"), .unlabelled (.leaf .string "\"a\"")]))]))]),
      (tokens_eq_iff _ _).mp (by decide +kernel), rfl⟩
  have hplain : ∀ t ∈ sampleEntries, t.Plain Imports.builtin.entries := by
    simp only [sampleEntries, List.forall_mem_cons]
    refine ⟨.atom _, .atom _, .array ?_, nofun⟩
    simp only [List.forall_mem_cons]
    exact ⟨.atom _, .atom _, nofun⟩
  have hwritten : sampleEntries.mapM (Tree.entrywise Imports.builtin.entries) =
      .ok [.int 1, .null, .list [.null, .text "a"]] := by rfl
  obtain ⟨-, hread, -⟩ := array_literal_without_nulls _ _ hplain
  rw [entrywise_array, hwritten] at hread
  have hlists : (Tree.array (sampleEntries.map Tree.asItem)).ListsNull :=
    .entry (a := ⟨.name, "null"⟩) (by simp [sampleEntries]) (by decide)
  exact ⟨hparse, hplain, hwritten, hread, hlists⟩

end Expression

end Marginalia
