import Marginalia.Report
import Marginalia.Proofs.Definitions

/-!
# Where annotations are filed

The registry is filled comment by comment, and what a comment does depends on what was filed
before it. This module says the same without a state, from the list `A` of all annotations in the
order in which they were read:

* `entries`: a resource holds its own APIs and then those that follow it in `A` up to the next
  resource; likewise a model and its properties;
* `Note.defines`: an id means the last annotation of `A` that carries it;
* `remark`: what there is to say about an annotation, given only the annotations before it.

`Filed` ties a registry to such a list, `filed_file` is one annotation and `filed_fileAll` the
annotations of a comment. `Registry.submitAll` is any row of comments, however they were read, and
`submitAll_files_as_declared` the main statement.
-/

namespace Marginalia

/-! ## 1. Comments handed in -/

/-- A comment that is handed in, with what it was read as. -/
structure Submission where
  comment : String
  location : String
  target : Target
  parsed : Except Fault (List Note)

/-- Files a comment and records what there is to say. -/
def Registry.submit (state : Registry × Log) (c : Submission) : Registry × Log :=
  let routed := state.1.route c.location c.comment c.target c.parsed
  (routed.registry, state.2 ++ routed.log)

/-- Files comments one after another, from nothing. -/
def Registry.submitAll (calls : List Submission) : Registry × Log :=
  calls.foldl Registry.submit (.empty, [])

/-- A comment of a source as it is handed in. -/
def Php.Attachment.submission (c : Php.Attachment) : Submission :=
  ⟨c.comment, c.location, c.target, DocComment.parse c.comment c.aliases⟩

/-- A file is scanned by handing in its comments. -/
theorem ofSource_eq_submitAll (path : String) (bytes : List UInt8) :
    FileScan.ofSource path bytes =
      ⟨path, (Registry.submitAll
          ((Php.attachments path (Php.tokenize bytes)).map (·.submission))).1,
        (Registry.submitAll
          ((Php.attachments path (Php.tokenize bytes)).map (·.submission))).2⟩ := by
  unfold FileScan.ofSource Registry.submitAll
  rw [List.foldl_map]
  rfl

/-! ## 2. Reading the list of annotations -/

/-- Whether an annotation stands for itself, as one of a kind and not as a definition. -/
def Note.standsAs (k : Kind) (a : Note) : Bool := a.kind = k && a.partialId.isNone

/-- Whether an annotation defines an id. -/
def Note.defines (id : String) (a : Note) : Bool := a.kind ≠ .reference && a.partialId == some id

/-- The members among annotations before the first opener. -/
def followers (opener member : Kind) (notes : List Note) : List Note :=
  (notes.takeWhile fun b => !b.standsAs opener).filter (·.standsAs member)

/-- The openers among annotations, each with the members that follow it before the next one. -/
def entries (opener member : Kind) (f : Field) : List Note → List Note
  | [] => []
  | a :: more =>
    if a.standsAs opener then
      a.extend f ((followers opener member more).map .note) :: entries opener member f more
    else entries opener member f more

/-- The notice about an annotation without a container before it. -/
def homelessRemark (before : List Note) (location : String) (kind container : Kind) : Log :=
  if before.any (·.standsAs container) then [] else notice (homelessMessage kind container) location

/-- What there is to say about an annotation, given the annotations before it. -/
def remark (before : List Note) (location : String) (a : Note) : Log :=
  if a.kind = .reference then notice loneReferenceMessage location
  else match a.partialId with
    | some id =>
      if before.any (·.defines id) then notice (notUniqueMessage id) location else []
    | none => match a.kind with
      | .resource | .model => []
      | .api => homelessRemark before location .api .resource
      | .property => homelessRemark before location .property .model
      | k => notice (misplacedMessage k) location

/-- `remark` on annotations one after another. -/
def remarks (before : List Note) (location : String) : List Note → Log
  | [] => []
  | a :: more => remark before location a ++ remarks (before ++ [a]) location more

/-! ## 3. One more annotation in the list -/

section Snoc

variable {opener member : Kind} {f : Field} {a : Note} {A : List Note}

theorem followers_snoc_of_opener (ha : a.standsAs opener = true) :
    followers opener member (A ++ [a]) = followers opener member A := by
  unfold followers
  congr 1
  induction A with
  | nil => simp [ha]
  | cons b A ih =>
      rw [List.cons_append, List.takeWhile_cons, List.takeWhile_cons, ih]

theorem followers_snoc_of_any (hA : A.any (·.standsAs opener) = true) :
    followers opener member (A ++ [a]) = followers opener member A := by
  unfold followers
  congr 1
  induction A with
  | nil => cases hA
  | cons b A ih =>
      rw [List.cons_append, List.takeWhile_cons, List.takeWhile_cons]
      cases hb : b.standsAs opener with
      | true => rfl
      | false =>
          rw [List.any_cons, hb, Bool.false_or] at hA
          rw [ih hA]

theorem followers_snoc_of_none (hA : A.any (·.standsAs opener) = false)
    (ha : a.standsAs opener = false) :
    followers opener member (A ++ [a]) =
      followers opener member A ++ [a].filter (·.standsAs member) := by
  unfold followers
  rw [← List.filter_append]
  congr 1
  induction A with
  | nil => simp [ha]
  | cons b A ih =>
      rw [List.any_cons, Bool.or_eq_false_iff] at hA
      rw [List.cons_append, List.takeWhile_cons, List.takeWhile_cons, hA.1, ih hA.2]
      rfl

theorem entries_isEmpty (opener member : Kind) (f : Field) (A : List Note) :
    (entries opener member f A).isEmpty = !A.any (·.standsAs opener) := by
  induction A with
  | nil => rfl
  | cons b A ih =>
      unfold entries
      rw [List.any_cons]
      split
      · rename_i hb
        rw [hb, Bool.true_or]
        rfl
      · rename_i hb
        rw [ih, Bool.eq_false_iff.mpr hb, Bool.false_or]

theorem entries_snoc_opener (ha : a.standsAs opener = true) (hself : a.extend f [] = a) :
    entries opener member f (A ++ [a]) = entries opener member f A ++ [a] := by
  induction A with
  | nil =>
      show entries opener member f [a] = [a]
      simp only [entries, if_pos ha, followers, List.takeWhile_nil, List.filter_nil, List.map_nil,
        hself]
  | cons b A ih =>
      rw [List.cons_append]
      unfold entries
      rw [ih, followers_snoc_of_opener ha]
      split <;> rfl

/-- An annotation that is neither opener nor member leaves the entries alone. -/
theorem entries_snoc_other (ha : a.standsAs opener = false) (hm : a.standsAs member = false) :
    entries opener member f (A ++ [a]) = entries opener member f A := by
  induction A with
  | nil => simp [entries, ha]
  | cons b A ih =>
      have hfollow : followers opener member (A ++ [a]) = followers opener member A := by
        cases hA : A.any (·.standsAs opener) with
        | true => exact followers_snoc_of_any hA
        | false =>
            rw [followers_snoc_of_none hA ha]
            simp [hm]
      rw [List.cons_append]
      unfold entries
      rw [ih, hfollow]

/-- A member goes to the last entry, if there is one. -/
theorem entries_snoc_member (ha : a.standsAs opener = false) (hm : a.standsAs member = true)
    (hA : ∀ b ∈ A, b.standsAs opener = true → f ∈ b.keys) :
    entries opener member f (A ++ [a]) =
      Registry.pushToLast f (.note a) (entries opener member f A) := by
  induction A with
  | nil => simp [entries, ha, Registry.pushToLast]
  | cons b A ih =>
      have ih' := ih fun c hc => hA c (List.mem_cons_of_mem b hc)
      have hempty := entries_isEmpty opener member f A
      rw [List.cons_append]
      unfold entries
      by_cases hb : b.standsAs opener = true
      · rw [if_pos hb, if_pos hb, ih']
        cases hany : A.any (·.standsAs opener) with
        | true =>
            rw [hany] at hempty
            obtain ⟨e, es, hes⟩ : ∃ e es, entries opener member f A = e :: es := by
              cases h : entries opener member f A with
              | nil => rw [h] at hempty; cases hempty
              | cons e es => exact ⟨e, es, rfl⟩
            rw [followers_snoc_of_any hany, hes]
            rfl
        | false =>
            rw [hany] at hempty
            have hnil : entries opener member f A = [] := List.isEmpty_iff.mp hempty
            have hfilter : [a].filter (·.standsAs member) = [a] := by simp [hm]
            rw [followers_snoc_of_none hany ha, hfilter, hnil, List.map_append]
            show [b.extend f _] = [(b.extend f _).extend f [.note a]]
            rw [Note.extend_extend (hA b List.mem_cons_self hb)]
            rfl
      · rw [if_neg hb, if_neg hb, ih']

/-- Files an annotation among entries: an opener behind them, a member in the last of them. -/
def addEntry (opener member : Kind) (f : Field) (a : Note) (es : List Note) : List Note :=
  if a.standsAs opener then es ++ [a]
  else if a.standsAs member then Registry.pushToLast f (.note a) es
  else es

/-- **The entries of a list with one more annotation.** -/
theorem entries_snoc (hf : f ∈ opener.fields) (hl : f.alwaysList = true)
    (hA : ∀ b ∈ A, b.Slotted) (ha : a.Slotted) :
    entries opener member f (A ++ [a]) =
      addEntry opener member f a (entries opener member f A) := by
  have field_of_standsAs : ∀ {b : Note}, b.standsAs opener = true → f ∈ b.kind.fields := by
    intro b hb
    simp only [Note.standsAs, Bool.and_eq_true, decide_eq_true_eq] at hb
    rw [hb.1]
    exact hf
  unfold addEntry
  cases ho : a.standsAs opener with
  | true =>
      rw [if_pos rfl]
      exact entries_snoc_opener ho (Note.extend_nil ha (field_of_standsAs ho) hl)
  | false =>
      rw [if_neg Bool.false_ne_true]
      cases hm : a.standsAs member with
      | true =>
          rw [if_pos rfl]
          exact entries_snoc_member ho hm fun b hb hop => (hA b hb).mem (field_of_standsAs hop)
      | false =>
          rw [if_neg Bool.false_ne_true]
          exact entries_snoc_other ho hm

theorem lastDefinition_snoc (id : String) :
    (A ++ [a]).reverse.find? (·.defines id) =
      if a.defines id then some a else A.reverse.find? (·.defines id) := by
  rw [List.reverse_append, List.reverse_singleton, List.singleton_append, List.find?_cons]
  cases a.defines id <;> rfl

end Snoc

theorem isSome_find?_reverse (p : Note → Bool) (A : List Note) :
    (A.reverse.find? p).isSome = A.any p := by
  rw [Bool.eq_iff_iff, List.find?_isSome, List.any_eq_true]
  simp only [List.mem_reverse]

/-! ## 4. Filing -/

/-- **The registry holds what the annotations declare.** -/
structure Registry.Holds (r : Registry) (A : List Note) : Prop where
  resources : r.resources = entries .resource .api .apis A
  models : r.models = entries .model .property .properties A
  definitions : ∀ id, r.definitions.find? id = A.reverse.find? (·.defines id)
  distinct : r.definitions.Distinct

namespace Registry

variable {r : Registry} {A : List Note}

theorem holds_empty : Registry.empty.Holds [] := ⟨rfl, rfl, fun _ => rfl, List.Pairwise.nil⟩

theorem Holds.has (h : r.Holds A) (id : String) :
    r.definitions.has id = A.any (·.defines id) := by
  rw [Definitions.has_eq_isSome, h.definitions, isSome_find?_reverse]

theorem file_resources (location : String) (r : Registry) (a : Note) :
    (r.file location a).1.resources = addEntry .resource .api .apis a r.resources := by
  unfold file addEntry Note.standsAs
  cases a.partialId with
  | some id => cases a.kind <;> rfl
  | none =>
      cases a.kind with
      | api =>
          -- without a resource there is no last entry either
          cases r with
          | mk resources models definitions => cases resources <;> rfl
      | property => dsimp only; split <;> rfl
      | _ => rfl

theorem file_models (location : String) (r : Registry) (a : Note) :
    (r.file location a).1.models = addEntry .model .property .properties a r.models := by
  unfold file addEntry Note.standsAs
  cases a.partialId with
  | some id => cases a.kind <;> rfl
  | none =>
      cases a.kind with
      | property =>
          cases r with
          | mk resources models definitions => cases models <;> rfl
      | api => dsimp only; split <;> rfl
      | _ => rfl

theorem file_definitions (location : String) (r : Registry) (a : Note) (id : String) :
    (r.file location a).1.definitions.find? id =
      if a.defines id then some a else r.definitions.find? id := by
  unfold file Note.defines
  cases a.partialId with
  | some other =>
      have hput : (r.addDefinition other a).definitions.find? id =
          if id = other then some a else r.definitions.find? id :=
        Definitions.find?_put r.definitions other id a
      by_cases ho : id = other
      · subst ho
        rw [if_pos rfl] at hput
        cases hk : a.kind with
        | reference => rfl
        | _ => simpa using hput
      · rw [if_neg ho] at hput
        have hne : (some other == some id) = false := beq_eq_false_iff_ne.mpr fun h =>
          ho (Option.some.inj h).symm
        rw [hne, Bool.and_false, if_neg Bool.false_ne_true]
        cases hk : a.kind with
        | reference => rfl
        | _ => exact hput
  | none =>
      have hne : ((none : Option String) == some id) = false := rfl
      rw [hne, Bool.and_false, if_neg Bool.false_ne_true]
      cases a.kind with
      | api | property => dsimp only; split <;> rfl
      | _ => rfl

theorem file_distinct {location : String} {r : Registry} (h : r.definitions.Distinct) (a : Note) :
    (r.file location a).1.definitions.Distinct := by
  unfold file
  cases a.partialId with
  | some id =>
      cases a.kind with
      | reference => exact h
      | _ => exact h.put id a
  | none =>
      cases a.kind with
      | api | property => dsimp only; split <;> exact h
      | _ => exact h

/-- **What is said about an annotation depends on the annotations before it alone.** -/
theorem Holds.file_log (h : r.Holds A) (location : String) (a : Note) :
    (r.file location a).2.2 = remark A location a := by
  have hres : r.resources.isEmpty = !A.any (·.standsAs .resource) := by
    rw [h.resources]
    exact entries_isEmpty _ _ _ A
  have hmod : r.models.isEmpty = !A.any (·.standsAs .model) := by
    rw [h.models]
    exact entries_isEmpty _ _ _ A
  unfold file remark homelessRemark
  cases a.partialId with
  | some id =>
      have hhas := h.has id
      cases a.kind with
      | reference => rfl
      | _ => dsimp only; rw [hhas]; rfl
  | none =>
      cases a.kind with
      | api =>
          dsimp only
          rw [hres]
          cases A.any (·.standsAs .resource) <;> rfl
      | property =>
          dsimp only
          rw [hmod]
          cases A.any (·.standsAs .model) <;> rfl
      | _ => rfl

/-- **One annotation.** -/
theorem Holds.file (h : r.Holds A) (hA : ∀ b ∈ A, b.Slotted) (location : String) {a : Note}
    (ha : a.Slotted) : (r.file location a).1.Holds (A ++ [a]) where
  resources := by
    rw [file_resources, h.resources, entries_snoc (by decide) rfl hA ha]
  models := by
    rw [file_models, h.models, entries_snoc (by decide) rfl hA ha]
  definitions id := by
    rw [file_definitions, h.definitions, lastDefinition_snoc]
  distinct := file_distinct h.distinct a

/-- **The annotations of a comment.** -/
theorem Holds.fileAll (h : r.Holds A) (hA : ∀ b ∈ A, b.Slotted) (location : String)
    (notes : List Note) (hn : ∀ a ∈ notes, a.Slotted) :
    (r.fileAll location notes).1.Holds (A ++ notes) ∧
      (r.fileAll location notes).2.2 = remarks A location notes := by
  induction notes generalizing r A with
  | nil =>
      rw [List.append_nil]
      exact ⟨h, rfl⟩
  | cons a notes ih =>
      have ha := hn a List.mem_cons_self
      have hA' : ∀ b ∈ A ++ [a], b.Slotted := by
        intro b hb
        rcases List.mem_append.mp hb with hb | hb
        · exact hA b hb
        · rw [List.mem_singleton.mp hb]
          exact ha
      obtain ⟨hholds, hlog⟩ := ih (h.file hA location ha) hA' fun b hb =>
        hn b (List.mem_cons_of_mem a hb)
      rw [List.append_assoc] at hholds
      refine ⟨hholds, ?_⟩
      show (r.file location a).2.2 ++ ((r.file location a).1.fileAll location notes).2.2 = _
      rw [hlog, h.file_log]
      rfl

end Registry

/-! ## 5. What declarations fill in -/

namespace Note

variable (target : Target) (comment : String) (path : Option String) (a : Note)

/-- What a declaration fills in leaves the kind of an annotation alone. -/
@[simp] theorem kind_fillFrom : (a.fillFrom target comment path).kind = a.kind := by
  unfold fillFrom fillFromType fillFromMethod fillFromProperty
  cases target with
  | unattached => rfl
  | type fullName parent => cases hk : a.kind <;> simp [hk]
  | property name => cases hk : a.kind <;> simp [hk]
  | method name =>
      cases hk : a.kind with
      | api =>
          dsimp only
          split
          · split <;> simp [hk]
          · simp [hk]
      | _ => exact hk

@[simp] theorem partialId_fillFrom : (a.fillFrom target comment path).partialId = a.partialId := by
  unfold fillFrom fillFromType fillFromMethod fillFromProperty
  cases target with
  | unattached => rfl
  | type fullName parent => cases a.kind <;> simp
  | property name => cases a.kind <;> simp
  | method name =>
      cases a.kind with
      | api =>
          dsimp only
          split
          · split <;> simp
          · simp
      | _ => rfl

theorem Slotted.fillFrom {a : Note} (h : a.Slotted) : (a.fillFrom target comment path).Slotted := by
  unfold Note.fillFrom fillFromType fillFromMethod fillFromProperty
  cases target with
  | unattached => exact h
  | type fullName parent =>
      cases a.kind with
      | resource => exact h.fill rfl _
      | model =>
          have hclass : (a.set .declaringClass (.text fullName)).Slotted :=
            h.set fun hl => by cases hl
          exact (hclass.fill rfl _).set fun hl => by cases hl
      | _ => exact h
  | property name =>
      cases a.kind with
      | property => exact (h.fill rfl _).fill rfl _
      | _ => exact h
  | method name =>
      cases a.kind with
      | api =>
          dsimp only
          split
          · split
            · exact h.set fun _ => ⟨_, rfl⟩
            · exact (h.fill rfl _).set fun _ => ⟨_, rfl⟩
          · exact h.set fun _ => ⟨_, rfl⟩
      | _ => exact h

end Note

/-! ## 6. Comments -/

/-- The path of the last resource among annotations. -/
def lastPath (notes : List Note) : Option String :=
  (notes.reverse.find? (·.standsAs .resource)).bind (·.text? .resourcePath)

namespace Submission

/-- What a comment was read as; nothing if it could not be read. -/
def read (c : Submission) : List Note :=
  match c.parsed with
  | .ok notes => notes
  | .error _ => []

/-- The annotations of a comment with what its declaration fills in, given those before it. -/
def notes (before : List Note) (c : Submission) : List Note :=
  c.read.map (·.fillFrom c.target c.comment (lastPath (before ++ c.read)))

/-- What there is to say about a comment. -/
def log (before : List Note) (c : Submission) : Log :=
  match c.parsed with
  | .ok _ => remarks before c.location (c.notes before)
  | .error fault => warning fault.message c.location

end Submission

/-- The annotations of comments, behind those of the comments before. -/
def declared (before : List Note) : List Submission → List Note
  | [] => []
  | c :: more => c.notes before ++ declared (before ++ c.notes before) more

/-- What there is to say about comments. -/
def declaredLog (before : List Note) : List Submission → Log
  | [] => []
  | c :: more => c.log before ++ declaredLog (before ++ c.notes before) more

/-- The last entry says of itself what the last opener says. -/
theorem getLast?_entries {opener member : Kind} {f g : Field} (hg : g ≠ f) (A : List Note) :
    (entries opener member f A).getLast?.bind (·.text? g) =
      (A.reverse.find? (·.standsAs opener)).bind (·.text? g) := by
  induction A with
  | nil => rfl
  | cons a A ih =>
      have hempty := entries_isEmpty opener member f A
      rw [← isSome_find?_reverse] at hempty
      rw [List.reverse_cons, List.find?_append]
      unfold entries
      by_cases ha : a.standsAs opener = true
      · rw [if_pos ha]
        cases hfind : A.reverse.find? (·.standsAs opener) with
        | none =>
            rw [hfind] at hempty
            rw [List.isEmpty_iff.mp hempty, List.getLast?_singleton, Option.none_or,
              List.find?_cons, ha]
            show Value.text? ((a.extend f _).get g) = _
            rw [Note.get_extend_of_ne a _ hg]
            rfl
        | some b =>
            rw [hfind] at hempty ih
            cases hes : entries opener member f A with
            | nil => rw [hes] at hempty; cases hempty
            | cons e es =>
                rw [hes] at ih
                rw [List.getLast?_cons_cons, ih]
                rfl
      · rw [if_neg ha, ih]
        simp [ha]

/-- The path that a comment sees is that of the last resource declared, its own ones included. -/
theorem Registry.Holds.path {r : Registry} {A : List Note} (h : r.Holds A) (notes : List Note) :
    (r.resourceAfter? notes).bind (·.text? .resourcePath) = lastPath (A ++ notes) := by
  have hcurrent : r.currentResource?.bind (·.text? .resourcePath) =
      (A.reverse.find? (·.standsAs .resource)).bind (·.text? .resourcePath) := by
    unfold currentResource?
    rw [h.resources]
    exact getLast?_entries (by decide) A
  unfold resourceAfter? lastPath
  rw [List.reverse_append, List.find?_append]
  show ((notes.reverse.find? (·.standsAs .resource)).or _).bind _ = _
  cases notes.reverse.find? (·.standsAs .resource) with
  | some b => rfl
  | none => exact hcurrent

theorem slotted_notes {A : List Note} (hA : ∀ b ∈ A, b.Slotted) {c : Submission}
    (hc : ∀ a ∈ c.read, a.Slotted) : ∀ b ∈ A ++ c.notes A, b.Slotted := by
  intro b hb
  rcases List.mem_append.mp hb with hb | hb
  · exact hA b hb
  · obtain ⟨a, ha, rfl⟩ := List.mem_map.mp hb
    exact (hc a ha).fillFrom c.target c.comment _

/-- **One comment.** -/
theorem Registry.Holds.submit {r : Registry} {A : List Note} (h : r.Holds A)
    (hA : ∀ b ∈ A, b.Slotted) (log : Log) (c : Submission) (hc : ∀ a ∈ c.read, a.Slotted) :
    (Registry.submit (r, log) c).1.Holds (A ++ c.notes A) ∧
      (Registry.submit (r, log) c).2 = log ++ c.log A := by
  unfold Registry.submit Registry.route Submission.log
  cases hp : c.parsed with
  | error fault =>
      have hnotes : c.notes A = [] := by
        simp only [Submission.notes, Submission.read, hp, List.map_nil]
      rw [hnotes, List.append_nil]
      exact ⟨h, rfl⟩
  | ok notes =>
      have hread : c.read = notes := by simp only [Submission.read, hp]
      have hnotes : notes.map (·.fillFrom c.target c.comment
          ((r.resourceAfter? notes).bind (·.text? .resourcePath))) = c.notes A := by
        rw [h.path, ← hread]
        rfl
      have hslotted : ∀ a ∈ c.notes A, a.Slotted := fun a ha =>
        slotted_notes hA hc a (List.mem_append_right A ha)
      obtain ⟨hholds, hlog⟩ := h.fileAll hA c.location (c.notes A) hslotted
      dsimp only
      rw [hnotes]
      exact ⟨hholds, congrArg (log ++ ·) hlog⟩

/-- **Comments one after another.** -/
theorem Registry.Holds.submitAll {r : Registry} {A : List Note} (h : r.Holds A)
    (hA : ∀ b ∈ A, b.Slotted) (log : Log) (calls : List Submission)
    (hc : ∀ c ∈ calls, ∀ a ∈ c.read, a.Slotted) :
    (calls.foldl Registry.submit (r, log)).1.Holds (A ++ declared A calls) ∧
      (calls.foldl Registry.submit (r, log)).2 = log ++ declaredLog A calls := by
  induction calls generalizing r A log with
  | nil =>
      simp only [List.foldl_nil, declared, declaredLog, List.append_nil]
      exact ⟨h, trivial⟩
  | cons c calls ih =>
      have hcread := hc c List.mem_cons_self
      obtain ⟨hholds, hlog⟩ := h.submit hA log c hcread
      obtain ⟨hlast, hrest⟩ := ih hholds (slotted_notes hA hcread) (Registry.submit (r, log) c).2
        fun d hd => hc d (List.mem_cons_of_mem c hd)
      rw [List.foldl_cons]
      unfold declared declaredLog
      rw [← List.append_assoc]
      refine ⟨hlast, ?_⟩
      rw [← List.append_assoc, ← hlog]
      exact hrest

/-- The annotations declared are those that were read, one for one and in order. -/
theorem headers_declared (before : List Note) (calls : List Submission) :
    (declared before calls).map (fun a => (a.kind, a.partialId)) =
      (calls.flatMap Submission.read).map (fun a => (a.kind, a.partialId)) := by
  induction calls generalizing before with
  | nil => rfl
  | cons c calls ih =>
      unfold declared Submission.notes
      rw [List.map_append, List.flatMap_cons, List.map_append, ih, List.map_map]
      congr 1
      refine List.map_congr_left fun a _ => ?_
      show ((a.fillFrom _ _ _).kind, (a.fillFrom _ _ _).partialId) = _
      rw [Note.kind_fillFrom, Note.partialId_fillFrom]

/-- **The registry is what the annotations declare**, whatever comments are handed in and however
    they were read. Of the annotations that were read, in order and each with what its declaration
    fills in:

    * the resources are those that stand for themselves, each with its own APIs and then those that
      follow it before the next resource; likewise the models and their properties;
    * an id finds the last annotation that defines it, and every id stands in the list once;
    * the log holds a warning for every comment that could not be read, and for every annotation
      what there is to say about it behind the annotations before it. -/
theorem submitAll_files_as_declared (calls : List Submission)
    (hread : ∀ c ∈ calls, ∀ a ∈ c.read, a.Slotted) :
    (declared [] calls).map (fun a => (a.kind, a.partialId)) =
        (calls.flatMap Submission.read).map (fun a => (a.kind, a.partialId)) ∧
    (Registry.submitAll calls).1.resources = entries .resource .api .apis (declared [] calls) ∧
    (Registry.submitAll calls).1.models = entries .model .property .properties (declared [] calls) ∧
    (∀ id, (Registry.submitAll calls).1.definitions.find? id =
        (declared [] calls).reverse.find? (·.defines id)) ∧
    (Registry.submitAll calls).1.definitions.Distinct ∧
    (Registry.submitAll calls).2 = declaredLog [] calls := by
  obtain ⟨hholds, hlog⟩ := Registry.holds_empty.submitAll (fun b hb => by cases hb) [] calls hread
  rw [List.nil_append] at hholds hlog
  exact ⟨headers_declared [] calls, hholds.resources, hholds.models, hholds.definitions,
    hholds.distinct, hlog⟩

/-- A property before any model, a resource, a comment that cannot be read, and an API at a method:
    the API goes to the resource with a path made from the resource's. -/
def sampleSubmissions : List Submission :=
  [⟨"", "a", .unattached, .ok [.blank .property]⟩,
    ⟨"", "b", .type "Pet" none, .ok [.blank .resource]⟩,
    ⟨"", "c", .unattached, .error (.unclosed "SWG\\Api")⟩,
    ⟨"", "d", .method "show",
      .ok [.blank .api, { Note.blank .parameter with partialId := some "p" }]⟩]

theorem submitAll_sample :
    (∀ c ∈ sampleSubmissions, ∀ a ∈ c.read, a.Slotted) ∧
    (Registry.submitAll sampleSubmissions).1.resources =
      entries .resource .api .apis (declared [] sampleSubmissions) ∧
    ((declared [] sampleSubmissions).filter (·.standsAs .api)).map (·.text? .path) =
      [some "/pet/show"] ∧
    (Registry.submitAll sampleSubmissions).2 = declaredLog [] sampleSubmissions ∧
    (declaredLog [] sampleSubmissions).map (fun d => (d.severity, d.location)) =
      [(.notice, "a"), (.warning, "c")] := by
  have hread : ∀ c ∈ sampleSubmissions, ∀ a ∈ c.read, a.Slotted := by
    intro c hc a ha
    simp only [sampleSubmissions, List.mem_cons, List.not_mem_nil, or_false] at hc
    rcases hc with rfl | rfl | rfl | rfl <;>
      simp only [Submission.read, List.mem_cons, List.not_mem_nil, or_false] at ha
    · exact ha ▸ .blank _
    · exact ha ▸ .blank _
    · rcases ha with rfl | rfl
      · exact .blank _
      · exact ⟨(Note.Slotted.blank .parameter).keys_eq, (Note.Slotted.blank .parameter).lists⟩
  have h := submitAll_files_as_declared sampleSubmissions hread
  exact ⟨hread, h.2.1, by decide, h.2.2.2.2.2, by decide⟩

end Marginalia
