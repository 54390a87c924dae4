import Marginalia.Proofs.Pooling
import Marginalia.Proofs.Expression.Foreign
import Marginalia.Proofs.Expansion.TextFields

/-!
# Annotations and the declarations they stand at

An annotation is filed with what its declaration says for it, and by then nothing tells any more
which was which. A filing keeps both apart:

* `Filing`: an annotation as it was read, and all that is filled in from;
* `Filing.derived`, `Filing.derivedBelow`: what the declaration says for a field of the annotation,
  and for a field of the operations written in it;
* `FilledIn`: each field for text holds what was read or else what was derived. A filing gives such
  an annotation (`Filing.filledIn`), and in an API such operations (`Filing.operations`);
* `openings`: which filings open the entries of a registry and which ones go into them
  (`entries_eq_openings`);
* `wellRead_of_mem_openings`, `pool_legible`: if nothing that was read refers to one id twice, the
  entries and the definitions are legible throughout.
-/

namespace Marginalia

/-! ## 1. Filling a field -/

@[simp] theorem Value.firstSaid_pair_null (v : Value) : Value.firstSaid [v, .null] = v := by
  cases v <;> rfl

namespace Note

@[simp] theorem partials_fill (a : Note) (f : Field) (v : Value) :
    (a.fill f v).partials = a.partials := by
  unfold fill
  split <;> rfl

@[simp] theorem keys_fill (a : Note) (f : Field) (v : Value) : (a.fill f v).keys = a.keys := by
  unfold fill
  split
  · exact keys_set a f v
  · rfl

/-- A field that is filled holds the first that is said, and the others stay as they are. -/
theorem get_fill {a : Note} {f : Field} (hf : f ∈ a.keys) (v : Value) (g : Field) :
    (a.fill f v).get g = if g = f then Value.firstSaid [a.get f, v] else a.get g := by
  unfold fill
  split
  · rename_i hnull
    rw [Value.isNull_iff.mp hnull]
    split
    · rename_i hg
      rw [hg, get_set_self v hf]
      cases v <;> rfl
    · rename_i hg
      exact get_set_of_ne a v hg
  · rename_i hsaid
    split
    · rename_i hg
      rw [hg]
      cases hget : a.get f with
      | null =>
          rw [hget] at hsaid
          exact absurd rfl hsaid
      | _ => rfl
    · rfl

end Note

/-! ## 2. Filings -/

/-- **An annotation as it was read**, with all that is filled in from: what its comment stands at,
    the comment, and the path of the resource that is current by then. -/
structure Filing where
  read : Note
  target : Target
  comment : String
  path : Option String

/-- An annotation with each of its fields for text filled in, where it says nothing itself. -/
structure FilledIn (derived : Field → Value) (a b : Note) : Prop where
  kind_eq : b.kind = a.kind
  partials_eq : b.partials = a.partials
  said : ∀ f ∈ a.kind.fields, f.shape = .text → f.isInternal = false →
    b.get f = Value.firstSaid [a.get f, derived f]

namespace Filing

/-- The annotation as it is filed. -/
def note (p : Filing) : Note := p.read.fillFrom p.target p.comment p.path

/-- **What the declaration says** for a field: the class for the path of a resource and for the id
    of a model, the variable and its `@var` tag for the name and the type of a property, and the
    method for the path of an API, behind that of the current resource if there is one. -/
def derived (p : Filing) (f : Field) : Value :=
  match p.target, p.read.kind with
  | .type fullName _, .resource =>
    if f = .resourcePath then .text (resourcePathFor fullName) else .null
  | .type fullName _, .model => if f = .id then .text (basename fullName) else .null
  | .property name, .property =>
    if f = .name then .text name
    else if f = .type then .ofText? (typeFromComment? p.comment)
    else .null
  | .method name, .api => match p.path with
    | some path => if f = .path ∧ path ≠ "" then .text (apiPathFor path name) else .null
    | none => .null
  | _, _ => .null

/-- What the declaration says for a field of the operations in an API: the method for their
    nickname. -/
def derivedBelow (p : Filing) (f : Field) : Value :=
  match p.target with
  | .method name => if f = .nickname then .text name else .null
  | _ => .null

/-- **A filed annotation holds what was read or else what was derived**, except for its operations
    and for where a model was declared. -/
theorem get_note {p : Filing} (h : p.read.Slotted) {f : Field} (hf : f ∈ p.read.kind.fields)
    (hoperations : f ≠ .operations) (hinternal : f.isInternal = false) :
    p.note.get f = Value.firstSaid [p.read.get f, p.derived f] := by
  obtain ⟨a, target, comment, path⟩ := p
  have hkeys : ∀ {g : Field} (k : Kind), a.kind = k → g ∈ k.fields → g ∈ a.keys :=
    fun k hk hg => h.mem (hk ▸ hg)
  unfold note derived Note.fillFrom
  cases target with
  | unattached => exact (Value.firstSaid_pair_null _).symm
  | type fullName parent =>
      unfold Note.fillFromType
      cases hk : a.kind with
      | resource =>
          simp only
          rw [Note.get_fill (hkeys .resource hk (by decide))]
          split <;> simp [*]
      | model =>
          have hclass : f ≠ .declaringClass := by
            rintro rfl
            cases hinternal
          have hparent : f ≠ .parentClass := by
            rintro rfl
            cases hinternal
          have hid : .id ∈ (a.set .declaringClass (.text fullName)).keys := by
            rw [Note.keys_set]
            exact hkeys .model hk (by decide)
          simp only
          rw [Note.get_set_of_ne _ _ hparent, Note.get_fill hid,
            Note.get_set_of_ne _ _ hclass, Note.get_set_of_ne _ _ (by decide)]
          split <;> simp [*]
      | _ => exact (Value.firstSaid_pair_null _).symm
  | property name =>
      unfold Note.fillFromProperty
      cases hk : a.kind with
      | property =>
          have hname : Field.name ∈ a.keys := hkeys .property hk (by decide)
          have htype : .type ∈ (a.fill .name (.text name)).keys := by
            rw [Note.keys_fill]
            exact hkeys .property hk (by decide)
          simp only
          rw [Note.get_fill htype, Note.get_fill hname _ .type, Note.get_fill hname _ f,
            if_neg (show Field.type ≠ .name by decide)]
          by_cases hname : f = .name
          · simp [hname]
          · split <;> simp [*]
      | _ => exact (Value.firstSaid_pair_null _).symm
  | method name =>
      unfold Note.fillFromMethod
      cases hk : a.kind with
      | api =>
          simp only
          rw [Note.get_set_of_ne _ _ hoperations]
          cases path with
          | none => exact (Value.firstSaid_pair_null _).symm
          | some path =>
              by_cases hpath : path = ""
              · simp [hpath]
              · simp only [if_neg hpath]
                rw [Note.get_fill (hkeys .api hk (by decide))]
                split <;> simp [*]
      | _ => exact (Value.firstSaid_pair_null _).symm

theorem kind_note (p : Filing) : p.note.kind = p.read.kind := Note.kind_fillFrom _ _ _ _

theorem partials_note (p : Filing) : p.note.partials = p.read.partials := by
  unfold note Note.fillFrom Note.fillFromType Note.fillFromMethod Note.fillFromProperty
  cases p.target with
  | unattached => rfl
  | type fullName parent => cases p.read.kind <;> simp
  | property name => cases p.read.kind <;> simp
  | method name =>
      cases p.read.kind with
      | api =>
          dsimp only
          split
          · split <;> simp
          · simp
      | _ => rfl

theorem filledIn {p : Filing} (h : p.read.Slotted) : FilledIn p.derived p.read p.note where
  kind_eq := p.kind_note
  partials_eq := p.partials_note
  said f hf htext hinternal := get_note h hf (fun he => by subst he; cases htext) hinternal

/-- The operations of an API as they are filed. -/
theorem get_operations {p : Filing} (h : p.read.Slotted) (hk : p.read.kind = .api) :
    p.note.get .operations = match p.target with
      | .method name => .list ((p.read.get .operations).items.map (fillNickname name))
      | _ => p.read.get .operations := by
  obtain ⟨a, target, comment, path⟩ := p
  have hpath : Field.path ∈ a.keys := h.mem (by rw [hk]; decide)
  have hkey : Field.operations ∈ a.keys := h.mem (by rw [hk]; decide)
  unfold note Note.fillFrom
  cases target with
  | unattached => rfl
  | type fullName parent =>
      unfold Note.fillFromType
      rw [hk]
  | property name =>
      unfold Note.fillFromProperty
      rw [hk]
  | method name =>
      unfold Note.fillFromMethod
      rw [hk]
      cases path with
      | none => exact Note.get_set_self _ hkey
      | some path =>
          by_cases hempty : path = ""
          · simp only [if_pos hempty]
            exact Note.get_set_self _ hkey
          · simp only [if_neg hempty]
            rw [Note.get_set_self _ (by rwa [Note.keys_fill]), Note.get_fill hpath,
              if_neg (by decide)]

/-- **The operations written in an API** are filed in their order, each filled in. -/
theorem operations {p : Filing} (h : p.read.Written) (hk : p.read.kind = .api) :
    ∃ ws, p.note.get .operations = .list ws ∧
      List.Forall₂ (Value.BecomesItem (FilledIn p.derivedBelow))
        (p.read.get .operations).items ws := by
  obtain ⟨vs, hvs, hall⟩ := h.nested.nests .operations (by rw [hk]; decide)
  have hwritten := h.get .operations
  rw [hvs] at hwritten
  have hslotted : ∀ o, .note o ∈ vs → o.Slotted := fun o ho =>
    (Value.written_note.mp (Value.written_list.mp hwritten _ ho)).nested.slotted
  have hget := get_operations h.nested.slotted hk
  rw [hvs] at hget ⊢
  unfold derivedBelow
  cases htarget : p.target with
  | method name =>
      rw [htarget] at hget
      refine ⟨_, hget, List.forall₂_map_right_iff.mpr (List.forall₂_same.mpr fun v hv => ?_)⟩
      obtain ⟨o, rfl, hok⟩ := hall v hv
      refine ⟨o, _, rfl, rfl, o.kind_fill _ _, o.partials_fill _ _, fun f _ _ _ => ?_⟩
      have hnickname : Field.nickname ∈ o.keys := (hslotted o hv).mem (by rw [hok]; decide)
      rw [Note.get_fill hnickname]
      split <;> simp [*]
  | _ =>
      rw [htarget] at hget
      refine ⟨vs, hget, List.forall₂_same.mpr fun v hv => ?_⟩
      obtain ⟨o, rfl, -⟩ := hall v hv
      exact ⟨o, o, rfl, rfl, rfl, rfl, fun f _ _ _ => (Value.firstSaid_pair_null _).symm⟩

end Filing

/-! ## 3. Comments and entries -/

/-- The filings of a comment, given the annotations before it. -/
def Submission.filings (before : List Note) (c : Submission) : List Filing :=
  c.read.map fun a => ⟨a, c.target, c.comment, lastPath (before ++ c.read)⟩

/-- The filings of comments, behind the annotations of the comments before. -/
def filings (before : List Note) : List Submission → List Filing
  | [] => []
  | c :: more => c.filings before ++ filings (before ++ c.notes before) more

/-- The filings of a source. -/
def filingsOf (source : String × List UInt8) : List Filing := filings [] (submissionsOf source)

/-- The annotations that are declared are those of the filings. -/
theorem map_note_filings (before : List Note) (calls : List Submission) :
    (filings before calls).map Filing.note = declared before calls := by
  induction calls generalizing before with
  | nil => rfl
  | cons c calls ih =>
      have hfirst : (c.filings before).map Filing.note = c.notes before := List.map_map
      rw [filings, declared, List.map_append, hfirst, ih]

theorem exists_of_mem_filings {before : List Note} {calls : List Submission} {p : Filing}
    (hp : p ∈ filings before calls) : ∃ c ∈ calls, p.read ∈ c.read := by
  induction calls generalizing before with
  | nil => cases hp
  | cons c calls ih =>
      rcases List.mem_append.mp hp with hp | hp
      · obtain ⟨a, ha, rfl⟩ := List.mem_map.mp hp
        exact ⟨c, List.mem_cons_self, ha⟩
      · obtain ⟨d, hd, hread⟩ := ih hp
        exact ⟨d, List.mem_cons_of_mem c hd, hread⟩

/-- The filing that opens an entry, and those that go into it. -/
structure Opening where
  opener : Filing
  members : List Filing

/-- **The filings that open entries**, each with the members that follow it before the next one. -/
def openings (opener member : Kind) : List Filing → List Opening
  | [] => []
  | p :: more =>
    if p.read.standsAs opener then
      ⟨p, (more.takeWhile fun q => !q.read.standsAs opener).filter (·.read.standsAs member)⟩ ::
        openings opener member more
    else openings opener member more

/-- The entry as it is filed. -/
def Opening.entry (f : Field) (e : Opening) : Note :=
  e.opener.note.extend f (e.members.map fun q => .note q.note)

theorem Filing.standsAs_note (k : Kind) (p : Filing) : p.note.standsAs k = p.read.standsAs k := by
  unfold Note.standsAs
  rw [p.kind_note, note, Note.partialId_fillFrom]

theorem entries_eq_openings (opener member : Kind) (f : Field) (ps : List Filing) :
    entries opener member f (ps.map Filing.note) =
      (openings opener member ps).map (Opening.entry f) := by
  induction ps with
  | nil => rfl
  | cons p ps ih =>
      have hfollow : followers opener member (ps.map Filing.note) =
          ((ps.takeWhile fun q => !q.read.standsAs opener).filter
            (·.read.standsAs member)).map Filing.note := by
        unfold followers
        rw [List.takeWhile_map, List.filter_map]
        simp only [Function.comp_def, Filing.standsAs_note]
      rw [List.map_cons, entries, openings, Filing.standsAs_note, ih, hfollow]
      split
      · rw [List.map_cons, Opening.entry, List.map_map]
        rfl
      · rfl

/-- What opens an entry and what goes into it was filed, as an annotation of its kind. -/
structure Opening.From (opener member : Kind) (ps : List Filing) (e : Opening) : Prop where
  opener_mem : e.opener ∈ ps
  opener_kind : e.opener.read.kind = opener
  members : ∀ q ∈ e.members, q ∈ ps ∧ q.read.kind = member

theorem from_of_mem_openings {opener member : Kind} {ps : List Filing} {e : Opening}
    (he : e ∈ openings opener member ps) : e.From opener member ps := by
  have hkind : ∀ {k : Kind} {p : Filing}, p.read.standsAs k = true → p.read.kind = k :=
    fun h => of_decide_eq_true (Bool.and_eq_true_iff.mp h).1
  induction ps with
  | nil => cases he
  | cons p ps ih =>
      have hmore : e ∈ openings opener member ps → e.From opener member (p :: ps) := fun he =>
        ⟨List.mem_cons_of_mem p (ih he).opener_mem, (ih he).opener_kind, fun q hq =>
          ⟨List.mem_cons_of_mem p ((ih he).members q hq).1, ((ih he).members q hq).2⟩⟩
      unfold openings at he
      split at he
      · rename_i hp
        rcases List.mem_cons.mp he with rfl | he
        · refine ⟨List.mem_cons_self, hkind hp, fun q hq => ?_⟩
          obtain ⟨hq, hmember⟩ := List.mem_filter.mp hq
          exact ⟨List.mem_cons_of_mem p (List.takeWhile_subset _ hq), hkind hmember⟩
        · exact hmore he
      · exact hmore he

/-! ## 4. Legible annotations -/

/-- Text in the fields for text, and no id that is referred to twice. -/
structure Note.Neat (a : Note) : Prop where
  partials_nodup : a.partials.Nodup
  words : a.Worded

theorem Value.isWord_ofText? (s : Option String) : (Value.ofText? s).IsWord := by
  cases s with
  | none => exact .inl rfl
  | some s => exact .inr ⟨s, rfl⟩

/-- What is sound has text in its fields for text, and so has all that stands below. -/
theorem Value.Sound.worded {v : Value} (h : v.Sound) : ∀ b ∈ v.notes, b.Throughout Note.Worded := by
  induction h with
  | @scalar v h =>
      intro b hb
      cases v with
      | list vs => cases h
      | note a => cases h
      | _ => cases hb
  | list items ih =>
      exact fun b hb => ih _ (Value.mem_notes_list.mp hb) b (Value.mem_notes_note.mpr rfl)
  | pair value ih => exact nofun
  | map keys entries ih => exact nofun
  | @note a words slots ih =>
      intro b hb
      cases Value.mem_notes_note.mp hb
      refine .intro words fun c hc => ?_
      obtain ⟨f, hf, hcf⟩ := Note.mem_children.mp hc
      by_cases hkey : f ∈ a.keys
      · exact ih (f, a.get f) (mem_of_lookup (Note.lookup_of_mem_keys hkey)) c hcf
      · rw [Note.get_of_not_mem hkey] at hcf
        cases hcf

/-- What is read from the comments of a source is written, and has text in its fields for text. -/
theorem written_and_worded {source : String × List UInt8} {c : Submission}
    (hc : c ∈ submissionsOf source) {a : Note} (ha : a ∈ c.read) :
    a.Written ∧ a.Throughout Note.Worded := by
  obtain ⟨p, -, rfl⟩ := List.mem_map.mp hc
  unfold Submission.read Php.Attachment.submission at ha
  dsimp only at ha
  split at ha
  · rename_i notes hparsed
    obtain ⟨text, tree, -, -, heval⟩ := DocComment.exists_tree_of_annotationsFrom hparsed a ha
    have hsound := (Expression.eval_keeps p.aliases tree heval).1
    exact ⟨DocComment.parse_written hparsed a ha, hsound.worded a (Value.mem_notes_note.mpr rfl)⟩
  · cases ha

namespace Note

variable {a : Note} {f : Field} {v : Value}

theorem Neat.set (h : a.Neat) (hv : f.shape = .text → v.IsWord) : (a.set f v).Neat where
  partials_nodup := h.partials_nodup
  words e he htext := by
    obtain ⟨d, hd, rfl⟩ := List.mem_map.mp he
    by_cases hf : d.1 = f
    · rw [if_pos hf] at htext ⊢
      exact hv htext
    · rw [if_neg hf] at htext ⊢
      exact h.words d hd htext

theorem Throughout.set_neat (h : a.Throughout Neat) (hv : f.shape = .text → v.IsWord)
    (hbelow : f ∈ a.kind.nestFields → ∀ b ∈ v.notes, b.Throughout Neat) :
    (a.set f v).Throughout Neat := by
  refine .intro (h.root.set hv) fun b hb => ?_
  obtain ⟨g, hg, hbg⟩ := mem_children.mp hb
  rcases get_set_cases a f g v with hnew | hold
  · by_cases hgf : g = f
    · rw [hnew] at hbg
      exact hbelow (hgf ▸ hg) b hbg
    · rw [get_set_of_ne a v hgf] at hbg
      exact h.child (mem_children.mpr ⟨g, hg, hbg⟩)
  · rw [hold] at hbg
    exact h.child (mem_children.mpr ⟨g, hg, hbg⟩)

theorem Throughout.set_word (h : a.Throughout Neat) (f : Field) (hv : v.IsWord) :
    (a.set f v).Throughout Neat := by
  refine h.set_neat (fun _ => hv) fun _ b hb => ?_
  rcases hv with rfl | ⟨s, rfl⟩ <;> cases hb

theorem Throughout.fill_word (h : a.Throughout Neat) (f : Field) (hv : v.IsWord) :
    (a.fill f v).Throughout Neat := by
  unfold Note.fill
  split
  · exact h.set_word f hv
  · exact h

/-- A list of other annotations that are neat throughout. -/
theorem Throughout.set_items (h : a.Throughout Neat) (hf : f.shape ≠ .text) {vs : List Value}
    (hvs : ∀ b, .note b ∈ vs → b.Throughout Neat) : (a.set f (.list vs)).Throughout Neat :=
  h.set_neat (fun htext => absurd htext hf) fun _ b hb => hvs b (Value.mem_notes_list.mp hb)

theorem Throughout.item (h : a.Throughout Neat) (hf : f ∈ a.kind.nestFields) {b : Note}
    (hb : .note b ∈ (a.get f).items) : b.Throughout Neat := by
  refine h.child (mem_children.mpr ⟨f, hf, ?_⟩)
  cases hget : a.get f with
  | list vs =>
      rw [hget] at hb
      exact Value.mem_notes_list.mpr hb
  | _ =>
      rw [hget] at hb
      cases hb

theorem Throughout.nicknames (h : a.Throughout Neat) (hk : a.kind = .api) (method : String) :
    (a.set .operations
      (.list ((a.get .operations).items.map (fillNickname method)))).Throughout Neat := by
  refine h.set_items (by decide) fun b hb => ?_
  obtain ⟨v, hv, hvb⟩ := List.mem_map.mp hb
  unfold fillNickname at hvb
  split at hvb
  · cases hvb
    exact (h.item (by rw [hk]; decide) hv).fill_word .nickname (.inr ⟨method, rfl⟩)
  · rename_i hnot
    exact absurd hvb (hnot b)

end Note

theorem Filing.neat {p : Filing} (h : p.read.Throughout Note.Neat) :
    p.note.Throughout Note.Neat := by
  have htext : ∀ s, (Value.text s).IsWord := fun s => .inr ⟨s, rfl⟩
  unfold note Note.fillFrom
  cases p.target with
  | unattached => exact h
  | type fullName parent =>
      show (p.read.fillFromType fullName parent).Throughout Note.Neat
      unfold Note.fillFromType
      split
      · exact h.fill_word _ (htext _)
      · exact ((h.set_word _ (htext _)).fill_word _ (htext _)).set_word _ (Value.isWord_ofText? _)
      · exact h
  | property name =>
      show (p.read.fillFromProperty name p.comment).Throughout Note.Neat
      unfold Note.fillFromProperty
      split
      · exact (h.fill_word _ (htext _)).fill_word _ (Value.isWord_ofText? _)
      · exact h
  | method name =>
      show (p.read.fillFromMethod name p.path).Throughout Note.Neat
      unfold Note.fillFromMethod
      split
      · rename_i hk
        dsimp only
        split
        · split
          · exact h.nicknames hk name
          · exact (h.fill_word _ (htext _)).nicknames ((p.read.kind_fill _ _).trans hk) name
        · exact h.nicknames hk name
      · exact h

theorem Note.Written.legible {a : Note} (h : a.Written) (hneat : a.Throughout Note.Neat) :
    a.Throughout Note.Legible :=
  (h.fresh.and hneat).mono fun _ h => ⟨⟨h.1, fun _ => h.2.partials_nodup⟩, h.2.words⟩

/-- What was read for a filing is written, and neat throughout. -/
structure Filing.WellRead (p : Filing) : Prop where
  written : p.read.Written
  neat : p.read.Throughout Note.Neat

theorem Filing.WellRead.legible {p : Filing} (h : p.WellRead) : p.note.Throughout Note.Legible :=
  (fillFrom_written h.written p.target p.comment p.path).legible (Filing.neat h.neat)

/-- What was read for an entry is well read, and the entry legible as it is filed. -/
structure Opening.WellRead (f : Field) (e : Opening) : Prop where
  nests : f ∈ e.opener.read.kind.nestFields
  opener : e.opener.WellRead
  members : ∀ q ∈ e.members, q.WellRead
  legible : (e.entry f).Throughout Note.Legible

section Sources

variable {source : String × List UInt8}

theorem wellRead_of_mem_filingsOf (hnodup : ∀ c ∈ submissionsOf source, ∀ a ∈ c.read,
    a.Throughout fun b => b.partials.Nodup) {p : Filing} (hp : p ∈ filingsOf source) :
    p.WellRead := by
  obtain ⟨c, hc, hread⟩ := exists_of_mem_filings hp
  obtain ⟨hwritten, hwords⟩ := written_and_worded hc hread
  exact ⟨hwritten, ((hnodup c hc _ hread).and hwords).mono fun _ h => ⟨h.1, h.2⟩⟩

theorem wellRead_of_mem_openings (hwell : ∀ p ∈ filingsOf source, p.WellRead)
    {opener member : Kind} {f : Field} (hf : f ∈ opener.nestFields) (hlist : f.alwaysList = true)
    (hwritten : ∀ a ∈ entries opener member f (declaredIn source), a.Written) {e : Opening}
    (he : e ∈ openings opener member (filingsOf source)) : e.WellRead f := by
  have hfrom := from_of_mem_openings he
  have hnests : f ∈ e.opener.read.kind.nestFields := hfrom.opener_kind ▸ hf
  have hopener := hwell _ hfrom.opener_mem
  have hmembers : ∀ q ∈ e.members, q.WellRead := fun q hq => hwell q (hfrom.members q hq).1
  have hentry : (e.entry f).Written := by
    refine hwritten _ ?_
    rw [declaredIn, ← map_note_filings, entries_eq_openings]
    exact List.mem_map_of_mem he
  refine ⟨hnests, hopener, hmembers, hentry.legible ?_⟩
  -- the opener, and in its list its own items and then the members
  have hneat := Filing.neat hopener.neat
  refine hneat.set_items (fun htext => ?_) fun b hb => ?_
  · rw [Field.alwaysList_of_text htext] at hlist
    cases hlist
  · rcases List.mem_append.mp hb with hb | hb
    · exact hneat.item (e.opener.kind_note ▸ hnests) hb
    · obtain ⟨q, hq, hqb⟩ := List.mem_map.mp hb
      cases hqb
      exact Filing.neat (hmembers q hq).neat

end Sources

/-- **Pooled definitions are legible**, if nothing that was read refers to one id twice. -/
theorem pool_legible {files : List (String × List UInt8)}
    (hwell : ∀ source ∈ files, ∀ p ∈ filingsOf source, p.WellRead) {id : String} {d : Note}
    (hd : (pool [] (scansOf files)).1.find? id = some d) : d.Throughout Note.Legible := by
  rw [show scansOf files = files.map scanOf from rfl, pool_find?] at hd
  have hlast := hd.symm.trans Option.or_none
  obtain ⟨source, hsource, hdeclared⟩ :=
    List.mem_flatMap.mp (List.mem_reverse.mp (List.mem_of_find?_eq_some hlast.symm))
  rw [declaredIn, ← map_note_filings] at hdeclared
  obtain ⟨p, hp, rfl⟩ := List.mem_map.mp hdeclared
  exact (hwell source hsource p hp).legible

end Marginalia
