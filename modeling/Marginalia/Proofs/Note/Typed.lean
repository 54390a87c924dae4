import Marginalia.Note.Check
import Marginalia.Proofs.Expansion.Tree

/-!
# Annotations of the declared types

The kinds declare what each of their fields holds. This module says when an annotation keeps to
that, at every depth:

* `Kind.declared`: what a field of a kind holds. The members of a group are annotations of one
  kind, which the check does not ask for;
* `Leaves`: what may stand where the declarations end: which whole numbers, which references and
  which values where any value can stand;
* `Value.OfShape`, `Note.Typed`: the value or the annotation is as it was declared.

A value that is of a shape already fits it as it is (`OfShape.fit_eq`).
-/

namespace Marginalia

/-! ## 1. Declarations -/

/-- The kind of a group's members. -/
def Kind.memberKind? : Kind → Option Kind
  | .operations => some .operation
  | .parameters => some .parameter
  | .responseMessages => some .responseMessage
  | _ => none

/-- What a field of a kind holds where something is said. -/
def Kind.declared (k : Kind) (f : Field) : Shape :=
  match k.memberKind? with
  | some m => .list (.child m)
  | none => f.shape

/-- The check of a group takes any members. -/
theorem Kind.shape_of_memberKind? {k m : Kind} (h : k.memberKind? = some m) {f : Field}
    (hf : f ∈ k.fields) : f.shape = .list .anything := by
  have hall : ∀ f ∈ k.fields, f.shape = .list .anything := by
    cases k <;> cases h <;> decide
  exact hall f hf

/-- A field that nests annotations nests those of one kind, which reach it without a name. -/
theorem Kind.declared_of_nests {k : Kind} {f : Field} (hf : f ∈ k.fields) (hn : f.nests = true) :
    ∃ c : Kind, k.nestField? c = some f ∧ c ≠ .reference ∧ c.isGroup = false ∧
      k.declared f = if f.alwaysList then .list (.child c) else .child c := by
  have h : ∀ f ∈ k.fields, f.nests = true → ∃ c ∈ Kind.all, k.nestField? c = some f ∧
      c ≠ .reference ∧ c.isGroup = false ∧
      k.declared f = if f.alwaysList then .list (.child c) else .child c := by
    cases k <;> decide
  obtain ⟨c, -, hc⟩ := h f hf hn
  exact ⟨c, hc⟩

/-! ## 2. Typed values -/

/-- What may stand where the declarations end. -/
structure Leaves where
  whole : Int → Prop
  reference : String → Prop
  untyped : Value → Prop

/-- **The value is of a shape**, and so are the annotations in it. -/
inductive Value.OfShape (leaves : Leaves) : Shape → Value → Prop
  | text (s : String) : OfShape leaves .text (.text s)
  | flag (b : Bool) : OfShape leaves .flag (.bool b)
  | whole {n : Int} (h : leaves.whole n) : OfShape leaves .whole (.int n)
  | anything {v : Value} (h : leaves.untyped v) : OfShape leaves .anything v
  | list {item : Shape} {vs : List Value} (items : ∀ v ∈ vs, OfShape leaves item v) :
      OfShape leaves (.list item) (.list vs)
  | child {a : Note} (keys : a.keys = a.kind.fields)
      (nulls : ∀ e ∈ a.fields, e.2 = .null → e.1.alwaysList = false)
      (slots : ∀ e ∈ a.fields, e.2 ≠ .null → OfShape leaves (a.kind.declared e.1) e.2)
      (references : ∀ id ∈ a.partials, leaves.reference id) :
      OfShape leaves (.child a.kind) (.note a)

/-- The annotation is as its kind declares it, at every depth. -/
def Note.Typed (leaves : Leaves) (a : Note) : Prop := (Value.note a).OfShape leaves (.child a.kind)

/-! ## 3. Typed values fit -/

theorem fit_anything (v : Value) : fit .anything v = .ok v := by
  cases v <;> (unfold fit; rfl)

theorem fitItems_eq {item : Shape} {vs : List Value} (h : ∀ v ∈ vs, fit item v = .ok v) (i : Nat) :
    fitItems item i vs = .ok vs := by
  induction vs generalizing i with
  | nil => rw [fitItems]
  | cons v vs ih =>
      obtain ⟨hv, hvs⟩ := List.forall_mem_cons.mp h
      rw [fitItems, hv, ih hvs]
      rfl

theorem fit_list {item : Shape} {vs : List Value} (h : ∀ v ∈ vs, fit item v = .ok v) :
    fit (.list item) (.list vs) = .ok (.list vs) := by
  unfold fit
  dsimp only
  rw [fitItems_eq h]
  rfl

/-- **What is of a shape fits it as it is.** -/
theorem Value.OfShape.fit_eq {leaves : Leaves} {shape : Shape} {v : Value}
    (h : v.OfShape leaves shape) : fit shape v = .ok v := by
  induction h with
  | text s => unfold fit; rfl
  | flag b => unfold fit; rfl
  | whole hn => unfold fit; rfl
  | anything hv => exact fit_anything _
  | list items ih => exact fit_list ih
  | child keys nulls slots references ih =>
      unfold fit
      exact if_pos rfl

/-- What is as a kind declares it passes the check of its field as it is. -/
theorem Value.OfShape.fit_field_eq {leaves : Leaves} {k : Kind} {f : Field} {v : Value}
    (h : v.OfShape leaves (k.declared f)) (hf : f ∈ k.fields) :
    fit f.shape v = .ok v := by
  unfold Kind.declared at h
  split at h
  · rename_i m hm
    cases h with
    | list items =>
        rw [Kind.shape_of_memberKind? hm hf]
        exact fit_list fun v _ => fit_anything v
  · exact h.fit_eq

end Marginalia
