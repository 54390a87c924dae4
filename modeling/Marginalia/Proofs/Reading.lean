import Marginalia.Report
import Marginalia.Proofs.Definitions
import Marginalia.Proofs.Note.Written

/-!
# Whatever is read from a source is written

An annotation that was read from a source is well formed all the way down and shares nothing with
any other (`Note.Written`). This is followed from the expression to the report:

* `eval_written`, `parse_written`: what an expression and what a comment say;
* `fillFrom_written`: what is filled in from the declaration behind the comment;
* `Registry.Written`: everything that has been filed, and every definition once. Filing keeps it so
  (`route_written`), and so does pooling the definitions of several files (`pool_written`).
-/

namespace Marginalia

/-! ## 1. Expressions -/

namespace Expression

theorem value_written {a : Atom} {v : Value} (h : a.value = .ok v) : v.Written := by
  unfold Atom.value at h
  split at h
  · cases h
    exact .text _
  · split at h
    · cases hn : readWhole a.text.toList with
      | error fault =>
          rw [hn] at h
          cases h
      | ok n =>
          rw [hn] at h
          cases h
          exact .int n
    · cases h
      exact .real _
  · cases h
    unfold constant
    split
    · exact .bool true
    · exact .bool false
    · exact .null
    · exact .text _

theorem arrayValue_written {parts : List Part} (h : ∀ p ∈ parts, p.value.Written) :
    (arrayValue parts).Written := by
  have hkept : ∀ p ∈ parts.filter Part.counts, p.value.Written := fun p hp =>
    h p (List.mem_filter.mp hp).1
  unfold arrayValue
  dsimp only
  split
  · refine .map ?_
    have hfold : ∀ (ps : List Part) (es : List (Key × Value)), (∀ p ∈ ps, p.value.Written) →
        (∀ e ∈ es, e.2.Written) → ∀ e ∈ ps.foldl (fun es p =>
          putEntry es (p.key.getD (.text "")) p.value) es, e.2.Written := by
      intro ps
      induction ps with
      | nil => exact fun es _ hes => hes
      | cons p ps ih =>
          intro es hps hes
          exact ih _ (fun q hq => hps q (List.mem_cons_of_mem p hq))
            (putEntry_written hes _ (hps p List.mem_cons_self))
    exact hfold _ [] hkept nofun
  · refine .list fun v hv => ?_
    obtain ⟨p, hp, rfl⟩ := List.mem_map.mp hv
    exact hkept p hp

theorem argument_written {p : Part} (h : p.value.Written) : p.argument.Written := by
  unfold Part.argument
  split
  · exact h
  · exact h

theorem annotate_written {aliases : Aliases} {name : String} {parts : List Part}
    (hparts : ∀ p ∈ parts, p.value.Written) {v : Value}
    (h : annotate aliases name parts = .ok v) : v.Written := by
  unfold annotate at h
  split at h
  · cases h
  · cases h
    exact .foreign
  · rename_i k hk
    cases hb : Note.build k ((parts.filter Part.counts).map Part.argument) with
    | error fault =>
        rw [hb] at h
        cases h
    | ok a =>
        rw [hb] at h
        cases h
        refine Value.written_note.mpr (build_written (fun arg harg => ?_) hb)
        obtain ⟨p, hp, rfl⟩ := List.mem_map.mp harg
        exact argument_written (hparts p (List.mem_filter.mp hp).1)

mutual

/-- **The value of an expression is written.** -/
theorem eval_written (aliases : Aliases) :
    ∀ (t : Tree) {v : Value}, t.eval aliases = .ok v → v.Written
  | .atom a, v, h => value_written (by rwa [Tree.eval] at h)
  | .array items, v, h => by
      rw [Tree.eval] at h
      cases hp : evalItems aliases items with
      | error fault =>
          rw [hp] at h
          cases h
      | ok parts =>
          rw [hp] at h
          cases h
          exact arrayValue_written (evalItems_written aliases items hp)
  | .bare name, v, h => by
      rw [Tree.eval] at h
      refine annotate_written ?_ h
      exact nofun
  | .call name arguments, v, h => by
      rw [Tree.eval] at h
      cases hp : evalItems aliases arguments with
      | error fault =>
          rw [hp] at h
          cases h
      | ok parts =>
          rw [hp] at h
          exact annotate_written (evalItems_written aliases arguments hp) h

theorem item_written (aliases : Aliases) :
    ∀ (i : Item) {p : Part}, i.eval aliases = .ok p → p.value.Written
  | ⟨label, tree⟩, p, h => by
      rw [Item.eval] at h
      cases hl : labelKey label with
      | error fault =>
          rw [hl] at h
          cases h
      | ok key =>
          rw [hl] at h
          dsimp only at h
          cases ht : tree.eval aliases with
          | error fault =>
              rw [ht] at h
              cases h
          | ok v =>
              rw [ht] at h
              cases h
              exact eval_written aliases tree ht

theorem evalItems_written (aliases : Aliases) :
    ∀ (items : List Item) {parts : List Part}, evalItems aliases items = .ok parts →
      ∀ p ∈ parts, p.value.Written
  | [], parts, h => by
      rw [evalItems] at h
      cases h
      exact nofun
  | item :: more, parts, h => by
      rw [evalItems] at h
      cases hi : item.eval aliases with
      | error fault =>
          rw [hi] at h
          cases h
      | ok part =>
          rw [hi] at h
          dsimp only at h
          cases hm : evalItems aliases more with
          | error fault =>
              rw [hm] at h
              cases h
          | ok rest =>
              rw [hm] at h
              cases h
              intro p hp
              rcases List.mem_cons.mp hp with rfl | hp
              · exact item_written aliases item hi
              · exact evalItems_written aliases more hm p hp

end

theorem evaluate_written {aliases : Aliases} {text : List Char} {v : Value}
    (h : evaluate aliases text = .ok v) : v.Written := by
  unfold evaluate at h
  split at h
  · cases h
  · exact eval_written aliases _ h

end Expression

/-! ## 2. Comments -/

namespace DocComment

theorem annotationAt_written {aliases : Aliases} {before : Option Char} {text : List Char}
    {v : Value} {extent : Nat} (h : annotationAt aliases before text = .ok (some (v, extent))) :
    v.Written := by
  have hmap : ∀ {r : Except Fault Value} {n : Nat},
      (r.map fun v => some (v, n)) = .ok (some (v, extent)) → r = .ok v := by
    intro r n hr
    cases r with
    | error fault => cases hr
    | ok w =>
        cases hr
        rfl
  unfold annotationAt at h
  split at h
  · split at h
    · cases h
    · split at h
      · cases h
      · cases h
      · split at h
        · cases h
        · exact Expression.evaluate_written (hmap h)
  · cases h

theorem annotationsFrom_written (aliases : Aliases) (text : List Char) (inside : Nat)
    (before : Option Char) {notes : List Note}
    (h : annotationsFrom aliases inside before text = .ok notes) : ∀ a ∈ notes, a.Written := by
  induction text generalizing inside before notes with
  | nil =>
      cases h
      exact nofun
  | cons c rest ih =>
      unfold annotationsFrom at h
      split at h
      · exact ih _ _ h
      · split at h
        · cases h
        · rename_i a extent ha
          cases hr : annotationsFrom aliases (extent - 1) (some c) rest with
          | error fault =>
              rw [hr] at h
              cases h
          | ok more =>
              rw [hr] at h
              cases h
              intro b hb
              rcases List.mem_cons.mp hb with rfl | hb
              · exact Value.written_note.mp (annotationAt_written ha)
              · exact ih _ _ hr b hb
        · exact ih _ _ h

/-- **What a comment says is written.** -/
theorem parse_written {comment : String} {aliases : Aliases} {notes : List Note}
    (h : parse comment aliases = .ok notes) : ∀ a ∈ notes, a.Written :=
  annotationsFrom_written aliases _ 0 none h

end DocComment

/-! ## 3. What is filled in -/

/-- A field that nests nothing can say anything that is written. -/
theorem Note.Written.set_plain {a : Note} (h : a.Written) {f : Field} (hf : f.nests = false)
    {v : Value} (hv : v.Written) : (a.set f v).Written := by
  refine h.set hv (fun hl => ?_) fun hm => ?_
  · rw [Field.nests_of_alwaysList hl] at hf
    cases hf
  · rw [(Kind.mem_nestFields (Kind.nestFields_subset hm)).mp hm] at hf
    cases hf

theorem Note.Written.fill {a : Note} (h : a.Written) {f : Field} (hf : f.nests = false)
    {v : Value} (hv : v.Written) : (a.fill f v).Written := by
  unfold Note.fill
  split
  · exact h.set_plain hf hv
  · exact h

theorem fillFromType_written {a : Note} (h : a.Written) (fullName : String)
    (parent : Option String) : (a.fillFromType fullName parent).Written := by
  unfold Note.fillFromType
  split
  · exact h.fill rfl (.text _)
  · refine Note.Written.set_plain ?_ rfl (Value.written_ofText? parent)
    exact (h.set_plain rfl (.text _)).fill rfl (.text _)
  · exact h

theorem fillNickname_written (method : String) {k : Kind} {v : Value} (hv : v.Written)
    (hk : v.IsNote k) : (fillNickname method v).Written ∧ (fillNickname method v).IsNote k := by
  obtain ⟨o, rfl, ho⟩ := hk
  have hfilled : (o.fill .nickname (.text method)).Written :=
    (Value.written_note.mp hv).fill rfl (.text method)
  exact ⟨Value.written_note.mpr hfilled, _, rfl, (o.kind_fill _ _).trans ho⟩

theorem nicknames_written {a : Note} (h : a.Written) (hk : a.kind = .api) (method : String) :
    (a.set .operations
      (.list ((a.get .operations).items.map (fillNickname method)))).Written := by
  have hnests := h.nested.nests .operations (by rw [hk]; decide)
  obtain ⟨vs, hvs, hall⟩ := hnests
  have hwritten := h.get .operations
  rw [hvs] at hwritten ⊢
  have hfilled : ∀ w ∈ vs.map (fillNickname method), w.Written ∧ w.IsNote .operation := by
    intro w hw
    obtain ⟨v, hv, rfl⟩ := List.mem_map.mp hw
    exact fillNickname_written method (Value.written_list.mp hwritten v hv) (hall v hv)
  refine h.set (.list fun w hw => (hfilled w hw).1) (fun _ => ⟨_, rfl⟩) fun _ => ?_
  exact ⟨_, rfl, fun w hw => (hfilled w hw).2⟩

theorem fillFromMethod_written {a : Note} (h : a.Written) (method : String)
    (resourcePath : Option String) : (a.fillFromMethod method resourcePath).Written := by
  unfold Note.fillFromMethod
  split
  · rename_i hk
    dsimp only
    split
    · split
      · exact nicknames_written h hk method
      · exact nicknames_written (h.fill rfl (.text _)) ((a.kind_fill _ _).trans hk) method
    · exact nicknames_written h hk method
  · exact h

theorem fillFromProperty_written {a : Note} (h : a.Written) (name comment : String) :
    (a.fillFromProperty name comment).Written := by
  unfold Note.fillFromProperty
  split
  · exact (h.fill rfl (.text _)).fill rfl (Value.written_ofText? _)
  · exact h

/-- What a declaration says for an annotation is written. -/
theorem fillFrom_written {a : Note} (h : a.Written) (target : Target) (comment : String)
    (resourcePath : Option String) : (a.fillFrom target comment resourcePath).Written := by
  cases target with
  | unattached => exact h
  | type fullName parent => exact fillFromType_written h fullName parent
  | method name => exact fillFromMethod_written h name resourcePath
  | property name => exact fillFromProperty_written h name comment

/-! ## 4. Filing -/

theorem Note.Written.push {a b : Note} (ha : a.Written) (hb : b.Written) {f : Field}
    (hf : f.shape = .list (.child b.kind)) : (a.push f (.note b)).Written := by
  have hitems : ∀ v ∈ (a.get f).items, v.Written := by
    have hget := ha.get f
    intro v hv
    cases hvs : a.get f with
    | list vs =>
        rw [hvs] at hget hv
        exact Value.written_list.mp hget v hv
    | _ =>
        rw [hvs] at hv
        cases hv
  refine ha.set (.list fun v hv => ?_) (fun _ => ⟨_, rfl⟩) fun hm => ?_
  · rcases List.mem_append.mp hv with hv | hv
    · exact hitems v hv
    · cases List.mem_singleton.mp hv
      exact Value.written_note.mpr hb
  · have hn := ha.nested.nests f hm
    rw [hf] at hn ⊢
    obtain ⟨vs, hvs, hall⟩ := hn
    rw [hvs]
    refine ⟨_, rfl, fun w hw => ?_⟩
    rcases List.mem_append.mp hw with hw | hw
    · exact hall w hw
    · exact ⟨b, List.mem_singleton.mp hw, rfl⟩

theorem pushToLast_written {notes : List Note} (h : ∀ a ∈ notes, a.Written) {b : Note}
    (hb : b.Written) {f : Field} (hf : f.shape = .list (.child b.kind)) :
    ∀ a ∈ Registry.pushToLast f (.note b) notes, a.Written := by
  fun_induction Registry.pushToLast f (.note b) notes with
  | case1 => exact nofun
  | case2 a => exact List.forall_mem_singleton.mpr ((h a List.mem_cons_self).push hb hf)
  | case3 a more hmore ih =>
      intro c hc
      rcases List.mem_cons.mp hc with rfl | hc
      · exact h c List.mem_cons_self
      · exact ih (fun d hd => h d (List.mem_cons_of_mem a hd)) c hc

theorem put_written {defs : Definitions} (h : ∀ e ∈ defs, e.2.Written) (id : String) {a : Note}
    (ha : a.Written) : ∀ e ∈ defs.put id a, e.2.Written := by
  unfold Definitions.put
  intro e he
  split at he
  · obtain ⟨d, hd, rfl⟩ := List.mem_map.mp he
    split
    · exact ha
    · exact h d hd
  · rcases List.mem_append.mp he with he | he
    · exact h e he
    · cases List.mem_singleton.mp he
      exact ha

/-- Everything that has been filed is written, and every id is defined once. -/
structure Registry.Written (r : Registry) : Prop where
  resources : ∀ a ∈ r.resources, a.Written
  models : ∀ a ∈ r.models, a.Written
  definitions : ∀ e ∈ r.definitions, e.2.Written
  distinct : r.definitions.Distinct

theorem Registry.Written.empty : Registry.empty.Written := ⟨nofun, nofun, nofun, List.nodup_nil⟩

/-- Filing one annotation. -/
theorem file_written {r : Registry} (h : r.Written) {a : Note} (ha : a.Written)
    (location : String) : (r.file location a).1.Written := by
  have hone : ∀ b ∈ [a], b.Written := List.forall_mem_singleton.mpr ha
  unfold Registry.file
  split
  · exact h
  · exact ⟨h.resources, h.models, put_written h.definitions _ ha, h.distinct.put _ a⟩
  · exact ⟨List.forall_mem_append.mpr ⟨h.resources, hone⟩, h.models, h.definitions, h.distinct⟩
  · exact ⟨h.resources, List.forall_mem_append.mpr ⟨h.models, hone⟩, h.definitions, h.distinct⟩
  · rename_i hk _
    have hshape : Field.apis.shape = .list (.child a.kind) := by
      rw [hk]
      rfl
    split
    · exact h
    · exact ⟨pushToLast_written h.resources ha hshape, h.models, h.definitions, h.distinct⟩
  · rename_i hk _
    have hshape : Field.properties.shape = .list (.child a.kind) := by
      rw [hk]
      rfl
    split
    · exact h
    · exact ⟨h.resources, pushToLast_written h.models ha hshape, h.definitions, h.distinct⟩
  · exact h

theorem fileAll_written (location : String) (notes : List Note) (hn : ∀ a ∈ notes, a.Written)
    (r : Registry) (h : r.Written) : (r.fileAll location notes).1.Written := by
  induction notes generalizing r with
  | nil => exact h
  | cons a notes ih =>
      exact ih (fun b hb => hn b (List.mem_cons_of_mem a hb)) _
        (file_written h (hn a List.mem_cons_self) location)

/-- Filing a comment. -/
theorem route_written {r : Registry} (h : r.Written) (location comment : String) (target : Target)
    {parsed : Except Fault (List Note)}
    (hparsed : ∀ notes, parsed = .ok notes → ∀ a ∈ notes, a.Written) :
    (r.route location comment target parsed).registry.Written := by
  unfold Registry.route
  split
  · exact h
  · rename_i notes
    refine fileAll_written location _ (fun a ha => ?_) r h
    obtain ⟨b, hb, rfl⟩ := List.mem_map.mp ha
    exact fillFrom_written (hparsed notes rfl b hb) target comment _

theorem routeComment_written {state : Registry × Log} (h : state.1.Written) (c : Php.Attachment) :
    (routeComment state c).1.Written := by
  have hparsed : ∀ notes, DocComment.parse c.comment c.aliases = .ok notes →
      ∀ a ∈ notes, a.Written := fun notes hp => DocComment.parse_written hp
  unfold routeComment
  dsimp only
  exact route_written h c.location c.comment c.target hparsed

/-- **Everything that is filed for a source is written.** -/
theorem ofSource_written (path : String) (bytes : List UInt8) :
    (FileScan.ofSource path bytes).registry.Written := by
  have hfold : ∀ (cs : List Php.Attachment) (state : Registry × Log), state.1.Written →
      (cs.foldl routeComment state).1.Written := by
    intro cs
    induction cs with
    | nil => exact fun _ h => h
    | cons c cs ih =>
        intro state h
        rw [List.foldl_cons]
        exact ih (routeComment state c) (routeComment_written h c)
  exact hfold (Php.attachments path (Php.tokenize bytes)) (.empty, []) Registry.Written.empty

/-! ## 5. Pooling -/

theorem poolFrom_written (path : String) (new : List (String × Note))
    (hnew : ∀ e ∈ new, e.2.Written) (defs : Definitions) (h : ∀ e ∈ defs, e.2.Written)
    (hd : defs.Distinct) :
    (∀ e ∈ (poolFrom path defs new).1, e.2.Written) ∧ (poolFrom path defs new).1.Distinct := by
  induction new generalizing defs with
  | nil => exact ⟨h, hd⟩
  | cons e new ih =>
      exact ih (fun d hd => hnew d (List.mem_cons_of_mem e hd)) _
        (put_written h e.1 (hnew e List.mem_cons_self)) (hd.put e.1 e.2)

theorem pool_written (scans : List FileScan) (hscans : ∀ s ∈ scans, s.registry.Written)
    (defs : Definitions) (h : ∀ e ∈ defs, e.2.Written) (hd : defs.Distinct) :
    (∀ e ∈ (pool defs scans).1, e.2.Written) ∧ (pool defs scans).1.Distinct := by
  induction scans generalizing defs with
  | nil => exact ⟨h, hd⟩
  | cons s scans ih =>
      obtain ⟨hw, hdistinct⟩ := poolFrom_written s.path s.registry.definitions
        (hscans s List.mem_cons_self).definitions defs h hd
      exact ih (fun t ht => hscans t (List.mem_cons_of_mem s ht)) _ hw hdistinct

end Marginalia
