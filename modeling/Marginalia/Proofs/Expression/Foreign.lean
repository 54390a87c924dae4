import Marginalia.Proofs.DocComment.Passages
import Marginalia.Proofs.Expression.Nesting
import Marginalia.Proofs.Note.Foreign

/-!
# Foreign annotations that leave their place

Foreign annotations without a label are passed over among the entries of an array and among the
arguments of an annotation. With a label they are not, and their place is left in the value:

* `Tree.LeavesForeign`: a foreign annotation stands somewhere in the tree with a label, and its
  place is neither taken by an entry or an argument behind it nor part of something that is;
* `eval_keeps`: these are exactly the trees with such a place in their value;
* `LeavesForeign.labels`: so a foreign annotation without a label leaves nothing
  (`Tree.LabelsForeign`);
* `exists_tree_of_annotationsFrom`: every annotation of a comment is the value of a tree that is
  read from the text of the comment.
-/

namespace Marginalia

/-- The values that a list or a map holds. -/
def Value.elements : Value → List Value
  | .list vs => vs
  | .map es => es.map (·.2)
  | _ => []

namespace Expression

variable {aliases : Aliases}

/-! ## 1. Trees that leave a place -/

/-- An item takes the place of what has been gathered under a name. -/
def Item.Enters (aliases : Aliases) (k : Kind) (name : String) (item : Item) : Prop :=
  ∃ part, item.eval aliases = .ok part ∧ part.counts = true ∧ (part.argument.effect k).Enters name

/-- **A tree leaves the place of a foreign annotation.** It is one itself, or one of its entries or
    arguments leaves a place and counts: it is not a foreign annotation without a label. Of an array
    the entry must still be there, as a later one of the same key takes its place; of an annotation
    the argument must be gathered under a name, and no later one may enter a value there. -/
inductive Tree.LeavesForeign (aliases : Aliases) : Tree → Prop
  | bare {name : String} (hk : kindOf aliases name = .ok none) : LeavesForeign aliases (.bare name)
  | call {name : String} {items : List Item} (hk : kindOf aliases name = .ok none) :
      LeavesForeign aliases (.call name items)
  | entry {items : List Item} {parts : List Part} {item : Item} {part : Part}
      (hparts : evalItems aliases items = .ok parts) (hitem : item ∈ items)
      (hpart : item.eval aliases = .ok part) (hcounts : part.counts = true)
      (hstays : part.value ∈ (arrayValue parts).elements)
      (h : LeavesForeign aliases item.value) : LeavesForeign aliases (.array items)
  | argument {name own : String} {k : Kind} {before after : List Item} {item : Item} {part : Part}
      (hk : kindOf aliases name = .ok (some k)) (hpart : item.eval aliases = .ok part)
      (hcounts : part.counts = true) (hname : (part.argument.effect k).name? = some own)
      (hkept : ∀ later ∈ after, ¬later.Enters aliases k own)
      (h : LeavesForeign aliases item.value) :
      LeavesForeign aliases (.call name (before ++ item :: after))

/-! ## 2. Arrays -/

theorem mem_elements_arrayValue {parts : List Part} {v : Value}
    (h : v ∈ (arrayValue parts).elements) :
    ∃ part ∈ parts, part.counts = true ∧ part.value = v := by
  have hfold : ∀ (ps : List Part) (es : List (Key × Value)) (e : Key × Value),
      e ∈ ps.foldl (fun es p => putEntry es (p.key.getD (.text "")) p.value) es →
        e ∈ es ∨ ∃ p ∈ ps, p.value = e.2 := by
    intro ps
    induction ps with
    | nil => exact fun es e he => .inl he
    | cons p ps ih =>
        intro es e he
        rcases ih _ e he with he | ⟨q, hq, hvalue⟩
        · rcases mem_putEntry he with hvalue | he
          · exact .inr ⟨p, List.mem_cons_self, hvalue.symm⟩
          · exact .inl he
        · exact .inr ⟨q, List.mem_cons_of_mem p hq, hvalue⟩
  have hkept : ∃ p ∈ parts.filter Part.counts, p.value = v := by
    unfold arrayValue at h
    dsimp only at h
    split at h
    · obtain ⟨e, he, rfl⟩ := List.mem_map.mp h
      rcases hfold _ [] e he with hnil | hsome
      · cases hnil
      · exact hsome
    · exact List.mem_map.mp h
  obtain ⟨p, hp, hvalue⟩ := hkept
  exact ⟨p, (List.mem_filter.mp hp).1, (List.mem_filter.mp hp).2, hvalue⟩

theorem arrayValue_hasForeign_iff (parts : List Part) :
    (arrayValue parts).HasForeign ↔ ∃ v ∈ (arrayValue parts).elements, v.HasForeign := by
  unfold arrayValue
  dsimp only
  split
  · rw [Value.hasForeign_map]
    constructor
    · rintro ⟨e, he, h⟩
      exact ⟨e.2, List.mem_map_of_mem he, h⟩
    · rintro ⟨v, hv, h⟩
      obtain ⟨e, he, rfl⟩ := List.mem_map.mp hv
      exact ⟨e, he, h⟩
  · exact Value.hasForeign_list

theorem arrayValue_sound {parts : List Part} (h : ∀ part ∈ parts, part.value.Sound) :
    (arrayValue parts).Sound := by
  have hkept : ∀ part ∈ parts.filter Part.counts, part.value.Sound := fun part hpart =>
    h part (List.mem_filter.mp hpart).1
  have hfold : ∀ (ps : List Part) (es : List (Key × Value)), (∀ p ∈ ps, p.value.Sound) →
      (es.map (·.1)).Nodup → (∀ e ∈ es, e.2.Sound) →
        (Value.map (ps.foldl (fun es p => putEntry es (p.key.getD (.text "")) p.value) es)).Sound
        := by
    intro ps
    induction ps with
    | nil => exact fun es _ hkeys hvalues => .map hkeys hvalues
    | cons p ps ih =>
        intro es hps hkeys hvalues
        obtain ⟨hp, hmore⟩ := List.forall_mem_cons.mp hps
        refine ih _ hmore (nodup_putEntry hkeys _ _) fun e he => ?_
        rcases mem_putEntry he with hvalue | he
        · exact hvalue ▸ hp
        · exact hvalues e he
  unfold arrayValue
  dsimp only
  split
  · exact hfold _ [] hkept List.nodup_nil nofun
  · refine .list fun v hv => ?_
    obtain ⟨part, hpart, rfl⟩ := List.mem_map.mp hv
    exact hkept part hpart

/-! ## 3. Arguments -/

/-- Around an argument stand the arguments of what stands around its part. -/
theorem exists_parts_of_argumentsOf {parts : List Part} {before after : List Argument}
    {arg : Argument} (h : argumentsOf parts = before ++ arg :: after) :
    ∃ front part back, parts = front ++ part :: back ∧ part.counts = true ∧ part.argument = arg ∧
      argumentsOf back = after := by
  induction parts generalizing before with
  | nil => cases before <;> cases h
  | cons part parts ih =>
      by_cases hcounts : part.counts = true
      · have hcons : argumentsOf (part :: parts) = part.argument :: argumentsOf parts := by
          unfold argumentsOf
          rw [List.filter_cons_of_pos hcounts, List.map_cons]
        rw [hcons] at h
        cases before with
        | nil =>
            obtain ⟨harg, hafter⟩ := List.cons.inj h
            exact ⟨[], part, parts, rfl, hcounts, harg, hafter⟩
        | cons own before =>
            obtain ⟨front, other, back, rfl, hrest⟩ := ih (List.cons.inj h).2
            exact ⟨part :: front, other, back, rfl, hrest⟩
      · have hskip : argumentsOf (part :: parts) = argumentsOf parts := by
          unfold argumentsOf
          rw [List.filter_cons_of_neg hcounts]
        rw [hskip] at h
        obtain ⟨front, other, back, rfl, hrest⟩ := ih h
        exact ⟨part :: front, other, back, rfl, hrest⟩

/-- Around a part stands what comes of the items around its item. -/
theorem exists_items_of_parts {items : List Item} {front back : List Part} {part : Part}
    (h : evalItems aliases items = .ok (front ++ part :: back)) :
    ∃ before item after, items = before ++ item :: after ∧ item.eval aliases = .ok part ∧
      evalItems aliases after = .ok back := by
  induction items generalizing front with
  | nil =>
      rw [evalItems] at h
      cases front <;> cases h
  | cons item items ih =>
      rw [evalItems_cons] at h
      obtain ⟨own, hown, hrest⟩ := exists_of_bind_ok h
      obtain ⟨rest, hmore, hparts⟩ := exists_of_map_ok hrest
      cases front with
      | nil =>
          obtain ⟨rfl, rfl⟩ := List.cons.inj hparts
          exact ⟨[], item, items, rfl, hown, hmore⟩
      | cons first front =>
          obtain ⟨-, rfl⟩ := List.cons.inj hparts
          obtain ⟨before, other, after, rfl, hother⟩ := ih hmore
          exact ⟨item :: before, other, after, rfl, hother⟩

theorem value_argument (part : Part) : part.argument.value = part.value := by
  unfold Part.argument
  split <;> rfl

/-- The arguments behind enter no value under a name if the items behind do not. -/
theorem enters_argumentsOf_iff {k : Kind} {name : String} {items : List Item} {parts : List Part}
    (h : evalItems aliases items = .ok parts) :
    (∀ later ∈ argumentsOf parts, ¬(later.effect k).Enters name) ↔
      ∀ later ∈ items, ¬later.Enters aliases k name := by
  constructor
  · rintro hnone item hitem ⟨part, hpart, hcounts, henters⟩
    have hmem := (mem_parts_iff h part).mpr ⟨item, hitem, hpart⟩
    exact hnone _ (List.mem_map_of_mem (List.mem_filter.mpr ⟨hmem, hcounts⟩)) henters
  · intro hnone arg harg henters
    obtain ⟨part, hpart, rfl⟩ := List.mem_map.mp harg
    obtain ⟨hmem, hcounts⟩ := List.mem_filter.mp hpart
    obtain ⟨item, hitem, heval⟩ := (mem_parts_iff h part).mp hmem
    exact hnone item hitem ⟨part, heval, hcounts, henters⟩

/-! ## 4. Evaluation -/

/-- What an item comes to: the value of its tree, with a key only if it has a label. -/
theorem Item.eval_eq_ok {item : Item} {part : Part} (h : item.eval aliases = .ok part) :
    item.value.eval aliases = .ok part.value ∧ (item.label = none → part.key = none) := by
  obtain ⟨label, tree⟩ := item
  rw [Item.eval] at h
  split at h
  · cases h
  · rename_i key hkey
    obtain ⟨v, hv, rfl⟩ := exists_of_map_ok h
    refine ⟨hv, fun hnone => ?_⟩
    obtain rfl : label = none := hnone
    cases hkey
    rfl

/-- What a tree comes to: it is sound, and a place is left in it exactly if the tree leaves one. -/
def Tree.Keeps (aliases : Aliases) (t : Tree) (v : Value) : Prop :=
  v.Sound ∧ (v.HasForeign ↔ t.LeavesForeign aliases)

theorem Tree.Keeps.array {items : List Item} {parts : List Part}
    (hparts : evalItems aliases items = .ok parts)
    (h : ∀ item ∈ items, ∀ part, item.eval aliases = .ok part →
      item.value.Keeps aliases part.value) :
    (Tree.array items).Keeps aliases (arrayValue parts) := by
  refine ⟨arrayValue_sound fun part hpart => ?_, ?_⟩
  · obtain ⟨item, hitem, heval⟩ := (mem_parts_iff hparts part).mp hpart
    exact (h item hitem part heval).1
  · rw [arrayValue_hasForeign_iff]
    constructor
    · rintro ⟨v, hv, hforeign⟩
      obtain ⟨part, hpart, hcounts, rfl⟩ := mem_elements_arrayValue hv
      obtain ⟨item, hitem, heval⟩ := (mem_parts_iff hparts part).mp hpart
      exact .entry hparts hitem heval hcounts hv ((h item hitem part heval).2.mp hforeign)
    · intro hleaves
      cases hleaves with
      | @entry _ parts' item part hparts' hitem hpart hcounts hstays hitemLeaves =>
          cases hparts.symm.trans hparts'
          exact ⟨part.value, hstays, (h item hitem part hpart).2.mpr hitemLeaves⟩

theorem Tree.Keeps.call {name : String} {k : Kind} (hk : kindOf aliases name = .ok (some k))
    {items : List Item} {parts : List Part} (hparts : evalItems aliases items = .ok parts)
    (h : ∀ item ∈ items, ∀ part, item.eval aliases = .ok part → item.value.Keeps aliases part.value)
    {a : Note} (ha : Note.build k (argumentsOf parts) = .ok a) :
    (Tree.call name items).Keeps aliases (.note a) := by
  have harguments : ∀ arg ∈ argumentsOf parts, arg.Written ∧ arg.value.Sound := by
    intro arg harg
    obtain ⟨part, hpart, rfl⟩ := List.mem_map.mp harg
    obtain ⟨hmem, -⟩ := List.mem_filter.mp hpart
    obtain ⟨item, hitem, heval⟩ := (mem_parts_iff hparts part).mp hmem
    refine ⟨argument_written (evalItems_written aliases items hparts part hmem), ?_⟩
    rw [value_argument]
    exact (h item hitem part heval).1
  obtain ⟨hsound, hiff⟩ := build_hasForeign_iff (fun arg harg => (harguments arg harg).1)
    (fun arg harg => (harguments arg harg).2) ha
  refine ⟨Value.sound_note.mpr hsound, ?_⟩
  rw [Value.hasForeign_note, hiff]
  constructor
  · rintro ⟨before, arg, after, own, hsplit, hname, hforeign, hafter⟩
    obtain ⟨front, part, back, rfl, hcounts, rfl, rfl⟩ := exists_parts_of_argumentsOf hsplit
    obtain ⟨before, item, after, rfl, hpart, hback⟩ := exists_items_of_parts hparts
    rw [value_argument] at hforeign
    have hitem := h item (List.mem_append_right _ List.mem_cons_self) part hpart
    exact .argument hk hpart hcounts hname ((enters_argumentsOf_iff hback).mp hafter)
      (hitem.2.mp hforeign)
  · intro hleaves
    generalize htree : Tree.call name items = t at hleaves
    cases hleaves with
    | bare hk' => cases htree
    | call hk' =>
        cases htree
        cases hk.symm.trans hk'
    | entry => cases htree
    | @argument _ own _ before after item part hk' hpart hcounts hname hkept hitemLeaves =>
        cases htree
        cases hk.symm.trans hk'
        obtain ⟨front, part', back, -, hpart', hback, rfl⟩ := evalItems_around hparts
        cases hpart.symm.trans hpart'
        have hitem := h item (List.mem_append_right _ List.mem_cons_self) part hpart
        refine ⟨argumentsOf front, part.argument, argumentsOf back, own, ?_, hname, ?_, ?_⟩
        · rw [argumentsOf_append]
          unfold argumentsOf
          rw [List.filter_cons_of_pos hcounts, List.map_cons]
        · rw [value_argument]
          exact hitem.2.mpr hitemLeaves
        · exact (enters_argumentsOf_iff hback).mpr hkept

theorem annotate_keeps {name : String} {items : List Item} {parts : List Part}
    (hparts : evalItems aliases items = .ok parts)
    (h : ∀ item ∈ items, ∀ part, item.eval aliases = .ok part → item.value.Keeps aliases part.value)
    {v : Value} (hv : annotate aliases name parts = .ok v) :
    (Tree.call name items).Keeps aliases v := by
  unfold annotate at hv
  split at hv
  · cases hv
  · rename_i hk
    cases hv
    exact ⟨.scalar rfl, iff_of_true .foreign (.call hk)⟩
  · rename_i k hk
    obtain ⟨a, ha, rfl⟩ := exists_of_map_ok hv
    exact .call hk hparts h ha

/-- An annotation without an argument list leaves a place only if it is foreign itself. -/
theorem annotate_bare_keeps {name : String} {v : Value} (hv : annotate aliases name [] = .ok v) :
    (Tree.bare name).Keeps aliases v := by
  unfold annotate at hv
  split at hv
  · cases hv
  · rename_i hk
    cases hv
    exact ⟨.scalar rfl, iff_of_true .foreign (.bare hk)⟩
  · rename_i k hk
    obtain ⟨a, ha, rfl⟩ := exists_of_map_ok hv
    have hnone : ∀ arg ∈ ([] : List Argument), arg.Written ∧ arg.value.Sound := nofun
    obtain ⟨hsound, hiff⟩ := build_hasForeign_iff (fun arg harg => (hnone arg harg).1)
      (fun arg harg => (hnone arg harg).2) ha
    refine ⟨Value.sound_note.mpr hsound, iff_of_false ?_ ?_⟩
    · rw [Value.hasForeign_note, hiff]
      rintro ⟨before, arg, after, -, hsplit, -⟩
      cases before <;> cases hsplit
    · intro hleaves
      cases hleaves with
      | bare hk' => cases hk.symm.trans hk'

theorem value_keeps {a : Atom} {v : Value} (h : a.value = .ok v) :
    (Tree.atom a).Keeps aliases v := by
  have hscalar : ∀ w : Value, w.isScalar = true → w ≠ .foreign → (Tree.atom a).Keeps aliases w :=
    fun w hw hne => ⟨.scalar hw, iff_of_false (mt (Value.hasForeign_of_isScalar hw).mp hne) nofun⟩
  unfold Atom.value at h
  split at h
  · cases h
    exact hscalar _ rfl nofun
  · split at h
    · obtain ⟨n, -, rfl⟩ := exists_of_map_ok h
      exact hscalar _ rfl nofun
    · cases h
      exact hscalar _ rfl nofun
  · cases h
    unfold constant
    split <;> exact hscalar _ rfl nofun

mutual

/-- **A place is left exactly if the tree leaves one.** -/
theorem eval_keeps (aliases : Aliases) :
    ∀ (t : Tree) {v : Value}, t.eval aliases = .ok v → t.Keeps aliases v
  | .atom a, v, h => value_keeps (by rwa [Tree.eval] at h)
  | .array items, v, h => by
      rw [Tree.eval] at h
      obtain ⟨parts, hparts, rfl⟩ := exists_of_map_ok h
      exact .array hparts (items_keep aliases items)
  | .bare name, v, h => by
      rw [Tree.eval] at h
      exact annotate_bare_keeps h
  | .call name items, v, h => by
      rw [eval_call_eq] at h
      obtain ⟨parts, hparts, hv⟩ := exists_of_bind_ok h
      exact annotate_keeps hparts (items_keep aliases items) hv

theorem items_keep (aliases : Aliases) :
    ∀ (items : List Item), ∀ item ∈ items, ∀ part, item.eval aliases = .ok part →
      item.value.Keeps aliases part.value
  | [], _, hitem, _, _ => nomatch hitem
  | ⟨label, tree⟩ :: more, item, hitem, part, hpart => by
      rcases List.mem_cons.mp hitem with rfl | hitem
      · exact eval_keeps aliases tree (Item.eval_eq_ok hpart).1
      · exact items_keep aliases more item hitem part hpart

end

/-! ## 5. Labels -/

/-- The entries of an array and the arguments of an annotation. -/
def Tree.items : Tree → List Item
  | .array items | .call _ items => items
  | _ => []

/-- **A foreign annotation stands somewhere in a tree with a label.** -/
inductive Tree.LabelsForeign (aliases : Aliases) : Tree → Prop
  | here {t : Tree} {item : Item} (hitem : item ∈ t.items) (hlabel : item.label ≠ none)
      (h : item.value.eval aliases = .ok .foreign) : LabelsForeign aliases t
  | within {t : Tree} {item : Item} (hitem : item ∈ t.items)
      (h : LabelsForeign aliases item.value) : LabelsForeign aliases t

/-- An item that counts and is a foreign annotation, or has a labelled one in it. -/
theorem Tree.LabelsForeign.of_item {t : Tree} {item : Item} {part : Part} (hitem : item ∈ t.items)
    (hpart : item.eval aliases = .ok part) (hcounts : part.counts = true)
    (h : part.value = .foreign ∨ item.value.LabelsForeign aliases) : t.LabelsForeign aliases := by
  rcases h with hforeign | hwithin
  · obtain ⟨hvalue, hkey⟩ := Item.eval_eq_ok hpart
    refine .here hitem (fun hnone => ?_) (hforeign ▸ hvalue)
    rw [Part.counts, hkey hnone, hforeign] at hcounts
    cases hcounts
  · exact .within hitem hwithin

/-- **A tree that leaves a place is a foreign annotation, or labels one.** -/
theorem Tree.LeavesForeign.labels {t : Tree} (h : t.LeavesForeign aliases) {v : Value}
    (hv : t.eval aliases = .ok v) : v = .foreign ∨ t.LabelsForeign aliases := by
  have hannotate : ∀ {name parts w}, kindOf aliases name = .ok none →
      annotate aliases name parts = .ok w → w = .foreign := by
    intro name parts w hk ha
    rw [annotate, hk] at ha
    cases ha
    rfl
  induction h generalizing v with
  | bare hk =>
      rw [Tree.eval] at hv
      exact .inl (hannotate hk hv)
  | call hk =>
      rw [eval_call_eq] at hv
      obtain ⟨parts, -, ha⟩ := exists_of_bind_ok hv
      exact .inl (hannotate hk ha)
  | entry hparts hitem hpart hcounts hstays hleaves ih =>
      exact .inr (.of_item hitem hpart hcounts (ih (Item.eval_eq_ok hpart).1))
  | argument hk hpart hcounts hname hkept hleaves ih =>
      have hitem := ih (Item.eval_eq_ok hpart).1
      exact .inr (.of_item (List.mem_append_right _ List.mem_cons_self) hpart hcounts hitem)

end Expression

/-! ## 6. Comments -/

namespace DocComment

theorem throughClosing?_front {depth : Nat} {inString : Bool} {text inner : List Char}
    (h : throughClosing? depth inString text = some inner) : inner <+: text := by
  fun_induction throughClosing? depth inString text generalizing inner with
  | case1 => cases h
  | case5 =>
      cases h
      exact List.cons_prefix_cons.mpr ⟨rfl, List.nil_prefix⟩
  | case2 | case3 | case4 | case6 | case7 =>
      -- every other character is passed on
      rename_i ih
      obtain ⟨more, hmore, rfl⟩ := Option.map_eq_some_iff.mp h
      exact List.cons_prefix_cons.mpr ⟨rfl, ih hmore⟩

/-- The argument list stands in front of the text. -/
theorem argumentList_front {name : String} {text arguments : List Char}
    (h : argumentList name text = .ok arguments) : arguments <+: text := by
  have htext : text.takeWhile Text.isBlank ++ Text.trimLeft text = text :=
    List.takeWhile_append_dropWhile
  unfold argumentList at h
  split at h
  · rename_i rest hrest
    split at h
    · rename_i inner hinner
      cases h
      rw [hrest] at htext
      conv_rhs => rw [← htext]
      exact (List.prefix_append_right_inj _).mpr
        (List.cons_prefix_cons.mpr ⟨rfl, throughClosing?_front hinner⟩)
    · cases h
  · cases h
    exact List.nil_prefix

/-- What is found at the front of a text is the value of what stands there. -/
theorem exists_source_of_annotationAt {aliases : Aliases} {before : Option Char}
    {text : List Char} {v : Value} {extent : Nat}
    (h : annotationAt aliases before text = .ok (some (v, extent))) :
    ∃ source, source <+: text ∧ Expression.evaluate aliases source = .ok v := by
  unfold annotationAt at h
  split at h
  · rename_i rest
    split at h
    · cases h
    · rename_i name hname
      split at h
      · cases h
      · cases h
      · split at h
        · cases h
        · rename_i arguments harguments
          obtain ⟨w, hw, hsome⟩ := exists_of_map_ok h
          cases hsome
          refine ⟨_, ?_, hw⟩
          have hfound : plainName? rest = some name := by
            split at hname
            · exact hname
            · cases hname
          have hprefix : name <+: rest := by
            have hfinds := plainName?_finds rest
            rw [hfound] at hfinds
            exact hfinds.2.1
          obtain ⟨following, rfl⟩ := hprefix
          rw [List.drop_left] at harguments
          exact List.cons_prefix_cons.mpr ⟨rfl,
            (List.prefix_append_right_inj _).mpr (argumentList_front harguments)⟩
  · cases h

/-- **Every annotation of a comment is the value of a tree** that is read from its text. -/
theorem exists_tree_of_annotationsFrom {aliases : Aliases} {inside : Nat} {before : Option Char}
    {text : List Char} {notes : List Note}
    (h : annotationsFrom aliases inside before text = .ok notes) :
    ∀ a ∈ notes, ∃ source tree, source <:+: text ∧ Expression.parse source = .ok tree ∧
      tree.eval aliases = .ok (.note a) := by
  induction text generalizing inside before notes with
  | nil =>
      cases h
      exact nofun
  | cons c rest ih =>
      have hmore : ∀ {inside before notes}, annotationsFrom aliases inside before rest = .ok notes →
          ∀ a ∈ notes, ∃ source tree, source <:+: c :: rest ∧ Expression.parse source = .ok tree ∧
            tree.eval aliases = .ok (.note a) := by
        intro inside before notes hrest a ha
        obtain ⟨source, tree, hinfix, htree⟩ := ih hrest a ha
        exact ⟨source, tree, hinfix.trans (List.suffix_cons c rest).isInfix, htree⟩
      unfold annotationsFrom at h
      split at h
      · exact hmore h
      · split at h
        · cases h
        · rename_i b extent hb
          obtain ⟨more, hrest, rfl⟩ := exists_of_map_ok h
          refine List.forall_mem_cons.mpr ⟨?_, hmore hrest⟩
          obtain ⟨source, hprefix, hvalue⟩ := exists_source_of_annotationAt hb
          unfold Expression.evaluate at hvalue
          split at hvalue
          · cases hvalue
          · rename_i tree htree
            exact ⟨source, tree, hprefix.isInfix, htree, hvalue⟩
        · exact hmore h

end DocComment

end Marginalia
