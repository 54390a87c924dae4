import Marginalia.Proofs.Expansion.Tree
import Marginalia.Proofs.Expression.Literal
import Marginalia.Proofs.Expression.Sentence

/-!
# Writing annotations

The printer that goes with the reader:

* `Derivation.text`: the text of a derivation, with a blank behind every comma;
* `Value.expression`, `Note.expression`: the expression that writes a value or an annotation. An
  annotation is written with its fields by name, then the annotations nested in it without a name,
  then the references to partial definitions;
* `Note.render`: the text of an annotation. It is read as the expression it was written from
  (`parse_render`).
-/

namespace Marginalia.Expression

/-! ## 1. Texts of derivations -/

/-- The text of words: nothing stands between them but a blank behind every comma. -/
def spell (words : List Word) : List Char :=
  words.flatMap fun w => if w = .comma then [',', ' '] else w.text.toList

theorem spelled_spell {words : List Word} (h : ∀ w ∈ words, w.Spelled) :
    Spelled (spell words) words := by
  induction words with
  | nil => exact .nil
  | cons w words ih =>
      obtain ⟨hw, hwords⟩ := List.forall_mem_cons.mp h
      have hrest := ih hwords
      unfold spell at hrest ⊢
      rw [List.flatMap_cons]
      split
      · rename_i hcomma
        subst hcomma
        exact Spelled.word (t := .comma) (w := [',']) rfl (.skip rfl hrest)
      · have hword := Spelled.word hw hrest
        rw [String.ofList_toList] at hword
        exact hword

namespace Derivation

/-- The text of a derivation. -/
def text {s : Nonterminal} (d : Derivation s) : List Char := spell d.words

/-- Every word of the derivation is spelled as its terminal wants it. -/
def Spellable {s : Nonterminal} (d : Derivation s) : Prop := ∀ w ∈ d.words, w.Spelled

/-- A text is read as the derivation it was written from. -/
theorem Spellable.parse_text {d : Derivation .expression} (h : d.Spellable) :
    parse d.text = .ok d.meaning := parse_of_spelled (spelled_spell h)

/-- Items with commas between them. -/
def row {e : Enclosure} (item : Derivation (.item e)) :
    List (Derivation (.item e)) → Derivation (.items e)
  | [] => .single item
  | next :: more => .cons item (row next more)

/-- Items in brackets. -/
def ofItems (e : Enclosure) : List (Derivation (.item e)) → Derivation (.list e)
  | [] => .empty e
  | item :: more => .filled (row item more) false

theorem meaning_row {e : Enclosure} (item : Derivation (.item e))
    (more : List (Derivation (.item e))) :
    (row item more).meaning = (item :: more).map meaning := by
  induction more generalizing item with
  | nil => rfl
  | cons next more ih =>
      rw [row, meaning, ih]
      rfl

theorem meaning_ofItems {e : Enclosure} (items : List (Derivation (.item e))) :
    (ofItems e items).meaning = items.map meaning := by
  cases items with
  | nil => rfl
  | cons item more => exact meaning_row item more

theorem spellable_row {e : Enclosure} {item : Derivation (.item e)}
    {more : List (Derivation (.item e))} (h : ∀ d ∈ item :: more, d.Spellable) :
    (row item more).Spellable := by
  induction more generalizing item with
  | nil => exact h item List.mem_cons_self
  | cons next more ih =>
      obtain ⟨hitem, hmore⟩ := List.forall_mem_cons.mp h
      refine List.forall_mem_append.mpr ⟨hitem, List.forall_mem_cons.mpr ⟨?_, ih hmore⟩⟩
      exact rfl

theorem spellable_ofItems {e : Enclosure} {items : List (Derivation (.item e))}
    (h : ∀ d ∈ items, d.Spellable) : (ofItems e items).Spellable := by
  have hopening : e.opening.Spelled := by cases e <;> rfl
  have hclosing : e.closing.Spelled := by cases e <;> rfl
  cases items with
  | nil => exact List.forall_mem_cons.mpr ⟨hopening, List.forall_mem_singleton.mpr hclosing⟩
  | cons item more =>
      refine List.forall_mem_cons.mpr ⟨hopening, List.forall_mem_append.mpr ⟨?_, ?_⟩⟩
      · exact spellable_row h
      · exact List.forall_mem_singleton.mpr hclosing

end Derivation

end Marginalia.Expression

namespace Marginalia

open Expression

/-! ## 2. Expressions of values and annotations -/

/-- The expression of a reference to a partial definition. -/
def referenceExpression (id : String) : Derivation .expression :=
  .applied Kind.reference.written (.ofItems .arguments [.unlabelled (.leaf .string (quote id))])

/-- The argument that gives an annotation its own id as a partial definition. -/
def idItems : Option String → List (Derivation (.item .arguments))
  | none => []
  | some id => [.assignment Attribute.partialId.spelling (.leaf .string (quote id))]

mutual

/-- The expression of a value. Values that cannot be written stand as null. -/
def Value.expression : Value → Derivation .plain
  | .bool b => .leaf .name (if b then "true" else "false")
  | .int n => .leaf .number (intText n)
  | .text s => .leaf .string (quote s)
  | .list vs => .array (.ofItems .array ((expressions vs).map .unlabelled))
  | .map es => .array (.ofItems .array (entryItems es))
  | .note a => .nested a.expression
  | _ => .leaf .name "null"

/-- The expressions that a value is written with where it has no name: a list as its items. -/
def Value.spread : Value → List (Derivation .plain)
  | .list vs => expressions vs
  | .note a => [.nested a.expression]
  | _ => []

/-- The expression of an annotation. -/
def Note.expression : Note → Derivation .expression
  | ⟨k, id, refs, slots⟩ => .applied k.written (.ofItems .arguments
      (idItems id ++ (slotItems false slots ++ (slotItems true slots ++
        refs.map fun id => .unlabelled (.nested (referenceExpression id))))))

/-- The expressions of values. -/
def expressions : List Value → List (Derivation .plain)
  | [] => []
  | v :: vs => v.expression :: expressions vs

/-- The entries of an array that is a map. -/
def entryItems : List (Key × Value) → List (Derivation (.item .array))
  | [] => []
  | (k, v) :: es => .pair .string (quote k.toText) .equal v.expression :: entryItems es

/-- The arguments for the fields that are nested, or for those that are not. -/
def slotItems (nested : Bool) : List (Field × Value) → List (Derivation (.item .arguments))
  | [] => []
  | (f, v) :: slots =>
    if f.nests != nested || v.isNull then slotItems nested slots
    else if nested then v.spread.map .unlabelled ++ slotItems nested slots
    else .assignment f.spelling v.expression :: slotItems nested slots

end

/-! ## 3. Texts of annotations -/

theorem spellable_leaf {l : Leaf} {text : String} (h : text.toList ∈ lexemes l.terminal) :
    (Derivation.leaf l text).Spellable := List.forall_mem_singleton.mpr h

theorem spelled_name {text : String} (h : name? text.toList = some text.toList) :
    Word.Spelled ⟨.name, text⟩ := mem_nameLexeme h

theorem spellable_applied {name : String} {arguments : Derivation (.list .arguments)}
    (hname : name? name.toList = some name.toList) (harguments : arguments.Spellable) :
    (Derivation.applied name arguments).Spellable :=
  List.forall_mem_cons.mpr ⟨rfl, List.forall_mem_cons.mpr ⟨spelled_name hname, harguments⟩⟩

theorem spellable_assignment {name : String} {value : Derivation .plain}
    (hname : name? name.toList = some name.toList) (hvalue : value.Spellable) :
    (Derivation.assignment name value).Spellable :=
  List.forall_mem_cons.mpr ⟨spelled_name hname, List.forall_mem_cons.mpr ⟨rfl, hvalue⟩⟩

theorem Kind.name?_written (k : Kind) : name? k.written.toList = some k.written.toList := by
  cases k <;> decide +kernel

theorem Field.name?_spelling (f : Field) :
    name? f.spelling.toList = some f.spelling.toList := by
  cases f <;> decide +kernel

theorem spellable_idItems (id : Option String) : ∀ d ∈ idItems id, d.Spellable := by
  cases id with
  | none => exact nofun
  | some id =>
      refine List.forall_mem_singleton.mpr (spellable_assignment (by decide +kernel) ?_)
      exact spellable_leaf (quote_mem id)

theorem spellable_reference (id : String) : (referenceExpression id).Spellable := by
  refine spellable_applied (Kind.name?_written .reference) (Derivation.spellable_ofItems ?_)
  exact List.forall_mem_singleton.mpr (spellable_leaf (l := .string) (quote_mem id))

mutual

theorem Value.spellable_expression : (v : Value) → v.expression.Spellable
  | .bool b => by
      refine spellable_leaf (mem_nameLexeme ?_)
      cases b <;> decide +kernel
  | .int n => spellable_leaf (intText_mem n)
  | .text s => spellable_leaf (quote_mem s)
  | .list vs => by
      refine Derivation.spellable_ofItems fun d hd => ?_
      obtain ⟨value, hvalue, rfl⟩ := List.mem_map.mp hd
      exact spellable_expressions vs value hvalue
  | .map es => Derivation.spellable_ofItems (spellable_entryItems es)
  | .note a => a.spellable_expression
  | .null | .real _ | .pair _ _ | .foreign | .shared _ _ =>
      spellable_leaf (mem_nameLexeme (by decide +kernel))

theorem Value.spellable_spread : (v : Value) → ∀ d ∈ v.spread, d.Spellable
  | .list vs => spellable_expressions vs
  | .note a => List.forall_mem_singleton.mpr a.spellable_expression
  | .null | .bool _ | .int _ | .real _ | .text _ | .pair _ _ | .map _ | .foreign | .shared _ _ =>
      nofun

theorem Note.spellable_expression : (a : Note) → a.expression.Spellable
  | ⟨k, id, refs, slots⟩ => by
      refine spellable_applied k.name?_written (Derivation.spellable_ofItems ?_)
      refine List.forall_mem_append.mpr ⟨spellable_idItems id, ?_⟩
      refine List.forall_mem_append.mpr ⟨spellable_slotItems false slots, ?_⟩
      refine List.forall_mem_append.mpr ⟨spellable_slotItems true slots, fun d hd => ?_⟩
      obtain ⟨ref, -, rfl⟩ := List.mem_map.mp hd
      exact spellable_reference ref

theorem spellable_expressions : (vs : List Value) → ∀ d ∈ expressions vs, d.Spellable
  | [] => nofun
  | v :: vs => List.forall_mem_cons.mpr ⟨v.spellable_expression, spellable_expressions vs⟩

theorem spellable_entryItems : (es : List (Key × Value)) → ∀ d ∈ entryItems es, d.Spellable
  | [] => nofun
  | (k, v) :: es => by
      refine List.forall_mem_cons.mpr ⟨?_, spellable_entryItems es⟩
      refine List.forall_mem_cons.mpr ⟨quote_mem k.toText, ?_⟩
      exact List.forall_mem_cons.mpr ⟨rfl, v.spellable_expression⟩

theorem spellable_slotItems (nested : Bool) :
    (slots : List (Field × Value)) → ∀ d ∈ slotItems nested slots, d.Spellable
  | [] => nofun
  | (f, v) :: slots => by
      have hslots := spellable_slotItems nested slots
      rw [slotItems]
      split
      · exact hslots
      · split
        · refine List.forall_mem_append.mpr ⟨fun d hd => ?_, hslots⟩
          obtain ⟨value, hvalue, rfl⟩ := List.mem_map.mp hd
          exact v.spellable_spread value hvalue
        · refine List.forall_mem_cons.mpr ⟨?_, hslots⟩
          exact spellable_assignment f.name?_spelling v.spellable_expression

end

/-- The text of an annotation. -/
def Note.render (a : Note) : List Char := a.expression.text

/-- **The text of an annotation is read as the expression it was written from.** -/
theorem parse_render (a : Note) : parse a.render = .ok a.expression.meaning :=
  a.spellable_expression.parse_text

end Marginalia
