import Marginalia.Expression.Eval
import Marginalia.Proofs.Note.Gathering

/-!
# Laws of evaluation

Expressions are evaluated from left to right, and an annotation is built from what its items come
to:

* `evalItems_append`: items behind one another, the first fault being that of the whole;
* `eval_call`: the value of an annotation by the arguments that its items are (`argumentsOf`);
* `Tree.Annotates`: a tree that writes an annotation of a kind. If it has a value, then this is one
  (`Annotates.isNote`).
-/

namespace Marginalia.Expression

/-! ## 1. Items -/

/-- An item without a label. -/
def Tree.asItem (t : Tree) : Item := ⟨none, t⟩

theorem eval_asItem (aliases : Aliases) (t : Tree) :
    t.asItem.eval aliases = (t.eval aliases).map (Part.mk none) := by
  unfold Tree.asItem
  rw [Item.eval, labelKey]

theorem evalItems_cons (aliases : Aliases) (item : Item) (items : List Item) :
    evalItems aliases (item :: items) =
      (item.eval aliases).bind fun part => (evalItems aliases items).map (part :: ·) := by
  rw [evalItems]
  cases item.eval aliases <;> rfl

/-- **Items behind one another.** -/
theorem evalItems_append (aliases : Aliases) (xs ys : List Item) :
    evalItems aliases (xs ++ ys) =
      (evalItems aliases xs).bind fun parts => (evalItems aliases ys).map (parts ++ ·) := by
  induction xs with
  | nil =>
      rw [List.nil_append, evalItems]
      show _ = (evalItems aliases ys).map ([] ++ ·)
      cases evalItems aliases ys <;> rfl
  | cons x xs ih =>
      rw [List.cons_append, evalItems_cons, evalItems_cons, ih]
      cases x.eval aliases with
      | error fault => rfl
      | ok part =>
          cases evalItems aliases xs with
          | error fault => rfl
          | ok parts => cases evalItems aliases ys <;> rfl

/-! ## 2. Annotations -/

/-- The arguments that evaluated items are. -/
def argumentsOf (parts : List Part) : List Argument :=
  (parts.filter Part.counts).map Part.argument

theorem argumentsOf_append (xs ys : List Part) :
    argumentsOf (xs ++ ys) = argumentsOf xs ++ argumentsOf ys := by
  unfold argumentsOf
  rw [List.filter_append, List.map_append]

/-- A nested annotation is an argument. -/
theorem argumentsOf_note (a : Note) (parts : List Part) :
    argumentsOf (⟨none, .note a⟩ :: parts) = .positional (.note a) :: argumentsOf parts := rfl

theorem eval_call_eq (aliases : Aliases) (name : String) (items : List Item) :
    (Tree.call name items).eval aliases =
      (evalItems aliases items).bind (annotate aliases name) := by
  rw [Tree.eval]
  cases evalItems aliases items <;> rfl

/-- The value of an annotation of a known kind. -/
theorem eval_call {aliases : Aliases} {name : String} {k : Kind}
    (hk : kindOf aliases name = .ok (some k)) (items : List Item) :
    (Tree.call name items).eval aliases =
      (evalItems aliases items).bind fun parts =>
        (Note.build k (argumentsOf parts)).map .note := by
  have hannotate : ∀ parts, annotate aliases name parts =
      (Note.build k (argumentsOf parts)).map .note := by
    intro parts
    rw [annotate, hk]
    rfl
  rw [eval_call_eq, funext hannotate]

/-- **A tree that writes an annotation of a kind**, whatever its arguments are. -/
inductive Tree.Annotates (aliases : Aliases) (k : Kind) : Tree → Prop
  | bare {name : String} (hk : kindOf aliases name = .ok (some k)) :
      Annotates aliases k (.bare name)
  | call {name : String} (hk : kindOf aliases name = .ok (some k)) (items : List Item) :
      Annotates aliases k (.call name items)

theorem Tree.Annotates.isNote {aliases : Aliases} {k : Kind} {t : Tree}
    (h : t.Annotates aliases k) {v : Value} (hv : t.eval aliases = .ok v) : v.IsNote k := by
  have hbuilt : ∀ arguments, (Note.build k arguments).map Value.note = .ok v → v.IsNote k := by
    intro arguments hmap
    obtain ⟨a, hbuild, rfl⟩ := exists_of_map_ok hmap
    exact ⟨a, rfl, Note.kind_of_build hbuild⟩
  cases h with
  | bare hk =>
      rw [Tree.eval, annotate, hk] at hv
      exact hbuilt _ hv
  | call hk items =>
      rw [eval_call hk] at hv
      obtain ⟨parts, -, hparts⟩ := exists_of_bind_ok hv
      exact hbuilt _ hparts

end Marginalia.Expression
