import Marginalia.Proofs.Expression.Printer
import Marginalia.Proofs.Note.Assembly

/-!
# Values are read back from their expressions

What the items of a list evaluate to, and with it the values that are the same after they were
written and read:

* `Value.Plain`: the values that can be written where any value can stand;
* `Yields`: items evaluate to parts, one lemma for each form of an item;
* `Value.ReadsBack`: the value is read back. Arrays give back lists and maps (`ReadsBack.list`,
  `ReadsBack.map`), and so every plain value is read back (`Plain.readsBack`).
-/

namespace Marginalia

open Expression

/-! ## 1. What can be written -/

/-- A value that can be written where any value can stand. A list would lose its nulls, and a map
    without entries would be read as a list. -/
inductive Value.Plain : Value → Prop
  | bool (b : Bool) : Plain (.bool b)
  | int {n : Int} (h : Short n) : Plain (.int n)
  | text (s : String) : Plain (.text s)
  | list {vs : List Value} (items : ∀ v ∈ vs, Plain v) : Plain (.list vs)
  | map {es : List (Key × Value)} (nonempty : es ≠ []) (texts : ∀ e ∈ es, ∃ s, e.1 = .text s)
      (distinct : (es.map (·.1)).Nodup) (values : ∀ e ∈ es, e.2 ≠ .null → Plain e.2) :
      Plain (.map es)

/-! ## 2. Items -/

/-- Items evaluate to parts. -/
def Yields {e : Enclosure} (items : List (Derivation (.item e))) (parts : List Part) : Prop :=
  evalItems Imports.builtin.entries (items.map Derivation.meaning) = .ok parts

namespace Yields

variable {e : Enclosure} {items more : List (Derivation (.item e))} {parts parts' : List Part}

theorem nil : Yields ([] : List (Derivation (.item e))) [] := rfl

theorem cons {item : Derivation (.item e)} {part : Part}
    (h : Item.eval Imports.builtin.entries item.meaning = .ok part) (hmore : Yields items parts) :
    Yields (item :: items) (part :: parts) := by
  unfold Yields at hmore ⊢
  rw [List.map_cons, evalItems, h]
  dsimp only
  rw [hmore]
  rfl

theorem append (h : Yields items parts) (hmore : Yields more parts') :
    Yields (items ++ more) (parts ++ parts') := by
  induction items generalizing parts with
  | nil =>
      cases h
      exact hmore
  | cons item items ih =>
      unfold Yields at h
      rw [List.map_cons, evalItems] at h
      cases hitem : Item.eval Imports.builtin.entries item.meaning with
      | error fault =>
          rw [hitem] at h
          cases h
      | ok part =>
          rw [hitem] at h
          cases hitems : evalItems Imports.builtin.entries (items.map Derivation.meaning) with
          | error fault =>
              dsimp only at h
              rw [hitems] at h
              cases h
          | ok rest =>
              dsimp only at h
              rw [hitems] at h
              cases h
              exact cons hitem (ih hitems)

end Yields

/-- **The value is read back from its expression**, and leaves a trace without a key. -/
structure Value.ReadsBack (v : Value) : Prop where
  counts : Part.counts ⟨none, v⟩ = true
  eval_eq : Tree.eval Imports.builtin.entries v.expression.meaning = .ok v

theorem eval_unlabelled {e : Enclosure} {v : Value} (h : v.ReadsBack) :
    Item.eval Imports.builtin.entries
      (Derivation.unlabelled (e := e) v.expression).meaning = .ok ⟨none, v⟩ := by
  rw [Derivation.meaning, Item.eval]
  dsimp only [labelKey]
  rw [h.eval_eq]
  rfl

theorem eval_assignment (name : String) {v : Value}
    (h : Tree.eval Imports.builtin.entries v.expression.meaning = .ok v) :
    Item.eval Imports.builtin.entries (Derivation.assignment name v.expression).meaning =
      .ok ⟨some (.text name), v⟩ := by
  rw [Derivation.meaning, Item.eval]
  dsimp only [labelKey, Atom.key, Except.map]
  rw [h]

theorem eval_pair (s : String) {v : Value}
    (h : Tree.eval Imports.builtin.entries v.expression.meaning = .ok v) :
    Item.eval Imports.builtin.entries
      (Derivation.pair .string (quote s) .equal v.expression).meaning =
      .ok ⟨some (.text s), v⟩ := by
  rw [Derivation.meaning, Item.eval]
  dsimp only [labelKey, Atom.key, Leaf.terminal, Except.map]
  rw [unquote_quote, h]

/-! ## 3. Values -/

theorem eval_null : Tree.eval Imports.builtin.entries Value.null.expression.meaning = .ok .null :=
  rfl

theorem Value.ReadsBack.bool (b : Bool) : (Value.bool b).ReadsBack :=
  ⟨rfl, by cases b <;> rfl⟩

theorem Value.ReadsBack.text (s : String) : (Value.text s).ReadsBack := by
  refine ⟨rfl, ?_⟩
  show Except.ok (Value.text (unquote (quote s))) = _
  rw [unquote_quote]

theorem eval_int (n : Int) : Tree.eval Imports.builtin.entries (Value.int n).expression.meaning =
    (readWhole (intText n).toList).map .int := by
  rw [Value.expression, Derivation.meaning, Tree.eval]
  exact if_pos (isWholeText_intText n)

theorem Value.ReadsBack.int {n : Int} (h : Short n) : (Value.int n).ReadsBack := by
  refine ⟨rfl, ?_⟩
  rw [eval_int, (readWhole_intText n).1 h]
  rfl

theorem expressions_eq_map (vs : List Value) : expressions vs = vs.map Value.expression := by
  induction vs with
  | nil => rw [expressions]; rfl
  | cons v vs ih => rw [expressions, ih]; rfl

theorem yields_expressions {e : Enclosure} {vs : List Value} (h : ∀ v ∈ vs, v.ReadsBack) :
    Yields (e := e) ((expressions vs).map .unlabelled) (vs.map fun v => ⟨none, v⟩) := by
  rw [expressions_eq_map]
  induction vs with
  | nil => exact .nil
  | cons v vs ih =>
      obtain ⟨hv, hvs⟩ := List.forall_mem_cons.mp h
      exact .cons (eval_unlabelled hv) (ih hvs)

theorem filter_counts {vs : List Value} (h : ∀ v ∈ vs, v.ReadsBack) :
    (vs.map fun v => (⟨none, v⟩ : Part)).filter Part.counts = vs.map fun v => ⟨none, v⟩ := by
  refine List.filter_eq_self.mpr fun p hp => ?_
  obtain ⟨v, hv, rfl⟩ := List.mem_map.mp hp
  exact (h v hv).counts

theorem arrayValue_list {vs : List Value} (h : ∀ v ∈ vs, v.ReadsBack) :
    arrayValue (vs.map fun v => ⟨none, v⟩) = .list vs := by
  unfold arrayValue
  rw [filter_counts h]
  cases vs with
  | nil => rfl
  | cons v vs =>
      refine (if_neg ?_).trans ?_
      · exact Bool.false_ne_true
      · rw [List.map_map]
        exact congrArg Value.list (List.map_id _)

theorem Value.ReadsBack.list {vs : List Value} (h : ∀ v ∈ vs, v.ReadsBack) :
    (Value.list vs).ReadsBack := by
  refine ⟨rfl, ?_⟩
  have hitems := yields_expressions (e := .array) h
  unfold Yields at hitems
  rw [Value.expression, Derivation.meaning, Derivation.meaning_ofItems, Tree.eval, hitems]
  exact congrArg Except.ok (arrayValue_list h)

theorem foldl_putEntry {es : List (Key × Value)} (texts : ∀ e ∈ es, ∃ s, e.1 = .text s)
    (before : List (Key × Value)) (distinct : ((before ++ es).map (·.1)).Nodup) :
    es.foldl (fun entries e => putEntry entries e.1 e.2) before = before ++ es := by
  induction es generalizing before with
  | nil => rw [List.append_nil]; rfl
  | cons e es ih =>
      obtain ⟨⟨s, hs⟩, htexts⟩ := List.forall_mem_cons.mp texts
      rw [List.append_cons] at distinct
      have hfirst : ((before ++ [e]).map (·.1)).Nodup := by
        rw [List.map_append] at distinct
        exact (List.nodup_append.mp distinct).1
      obtain ⟨key, v⟩ := e
      cases hs
      rw [List.foldl_cons, putEntry_of_not_mem v (not_mem_of_nodup_append hfirst),
        ih htexts _ distinct, ← List.append_cons]

theorem arrayValue_map {es : List (Key × Value)} (nonempty : es ≠ [])
    (texts : ∀ e ∈ es, ∃ s, e.1 = .text s) (distinct : (es.map (·.1)).Nodup) :
    arrayValue (es.map fun e => ⟨some e.1, e.2⟩) = .map es := by
  have hkept : (es.map fun e => (⟨some e.1, e.2⟩ : Part)).filter Part.counts =
      es.map fun e => ⟨some e.1, e.2⟩ := by
    refine List.filter_eq_self.mpr fun p hp => ?_
    obtain ⟨e, -, rfl⟩ := List.mem_map.mp hp
    rfl
  have hkeys : (es.map fun e => (⟨some e.1, e.2⟩ : Part)).all (·.key.isSome) = true := by
    refine List.all_eq_true.mpr fun p hp => ?_
    obtain ⟨e, -, rfl⟩ := List.mem_map.mp hp
    rfl
  have hsome : (es.map fun e => (⟨some e.1, e.2⟩ : Part)).isEmpty = false := by
    rw [List.isEmpty_map, List.isEmpty_eq_false_iff]
    exact nonempty
  unfold arrayValue
  rw [hkept]
  dsimp only
  rw [hkeys, hsome, List.foldl_map]
  exact congrArg Value.map (foldl_putEntry texts [] distinct)

theorem yields_entryItems {es : List (Key × Value)} (texts : ∀ e ∈ es, ∃ s, e.1 = .text s)
    (values : ∀ e ∈ es, Tree.eval Imports.builtin.entries e.2.expression.meaning = .ok e.2) :
    Yields (entryItems es) (es.map fun e => ⟨some e.1, e.2⟩) := by
  induction es with
  | nil =>
      rw [entryItems]
      exact .nil
  | cons e es ih =>
      obtain ⟨⟨s, hs⟩, htexts⟩ := List.forall_mem_cons.mp texts
      obtain ⟨hvalue, hvalues⟩ := List.forall_mem_cons.mp values
      obtain ⟨key, v⟩ := e
      cases hs
      rw [entryItems]
      exact .cons (eval_pair s hvalue) (ih htexts hvalues)

theorem Value.ReadsBack.map {es : List (Key × Value)} (nonempty : es ≠ [])
    (texts : ∀ e ∈ es, ∃ s, e.1 = .text s) (distinct : (es.map (·.1)).Nodup)
    (values : ∀ e ∈ es, Tree.eval Imports.builtin.entries e.2.expression.meaning = .ok e.2) :
    (Value.map es).ReadsBack := by
  refine ⟨rfl, ?_⟩
  have hitems := yields_entryItems texts values
  unfold Yields at hitems
  rw [Value.expression, Derivation.meaning, Derivation.meaning_ofItems, Tree.eval, hitems]
  exact congrArg Except.ok (arrayValue_map nonempty texts distinct)

/-- **A plain value is read back.** -/
theorem Value.Plain.readsBack {v : Value} (h : v.Plain) : v.ReadsBack := by
  induction h with
  | bool b => exact .bool b
  | int h => exact .int h
  | text s => exact .text s
  | list items ih => exact .list ih
  | map nonempty texts distinct values ih =>
      refine .map nonempty texts distinct fun e he => ?_
      by_cases hnull : e.2 = .null
      · rw [hnull]
        exact eval_null
      · exact (ih e he hnull).eval_eq

end Marginalia
