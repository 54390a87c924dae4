import Mathlib.Data.List.Dedup
import Mathlib.Data.List.Infix
import Marginalia.Proofs.Routing
import Marginalia.Proofs.Note.ValidPart
import Marginalia.Proofs.Expansion.Course
import Marginalia.Proofs.Expansion.Sharing

/-!
# What a report keeps of several files

A report pools the definitions of its files and puts their logs one behind the other. This module
says what comes out of that, from the annotations that the files declare, in the order of the files
and within a file in the order in which they were filed:

* `pool_find?`: an id means the last annotation that defines it, whichever file it is in;
* `submitAll_tallies`, `pool_tallies`: each definition is either the first one of its id or is
  noticed as not unique, once, be it within a file or when the files are pooled. So the notices in
  the report count the definitions beyond the distinct ids;
* `finishAll_recorded`: the log of the report is that of the pooling and then, file by file, all
  that was recorded while the file was read, expanded and validated, each record once.
-/

namespace Marginalia

/-! ## 1. What files declare -/

/-- The id that an annotation defines. -/
def Note.definedId? (a : Note) : Option String := if a.kind = .reference then none else a.partialId

theorem Note.defines_eq (id : String) (a : Note) :
    a.defines id = (a.definedId? == some id) := by
  unfold Note.defines Note.definedId?
  by_cases hk : a.kind = .reference
  · simp [hk]
  · simp [hk]

/-- The ids that annotations define, one for each definition. -/
def definedIds (notes : List Note) : List String := notes.filterMap Note.definedId?

theorem mem_definedIds {notes : List Note} {id : String} :
    id ∈ definedIds notes ↔ notes.any (·.defines id) = true := by
  unfold definedIds
  rw [List.mem_filterMap, List.any_eq_true]
  simp only [Note.defines_eq, beq_iff_eq]

/-- The comments of a source, as they are handed in. -/
def submissionsOf (source : String × List UInt8) : List Submission :=
  (Php.attachments source.1 (Php.tokenize source.2)).map (·.submission)

/-- The annotations of a source, in the order in which they are filed. -/
def declaredIn (source : String × List UInt8) : List Note := declared [] (submissionsOf source)

/-- The scan of a source. -/
def scanOf (source : String × List UInt8) : FileScan := .ofSource source.1 source.2

theorem scanOf_eq (source : String × List UInt8) :
    scanOf source = ⟨source.1, (Registry.submitAll (submissionsOf source)).1,
      (Registry.submitAll (submissionsOf source)).2⟩ := ofSource_eq_submitAll source.1 source.2

theorem slotted_of_submissionsOf (source : String × List UInt8) :
    ∀ c ∈ submissionsOf source, ∀ a ∈ c.read, a.Slotted := by
  intro c hc a ha
  obtain ⟨p, -, rfl⟩ := List.mem_map.mp hc
  unfold Submission.read Php.Attachment.submission at ha
  dsimp only at ha
  split at ha
  · rename_i notes hparsed
    exact (DocComment.parse_written hparsed a ha).nested.slotted
  · cases ha

/-- The registry of a source holds what the source declares. -/
theorem scanOf_holds (source : String × List UInt8) :
    (scanOf source).registry.Holds (declaredIn source) ∧
      (scanOf source).log = declaredLog [] (submissionsOf source) := by
  obtain ⟨hholds, hlog⟩ := Registry.holds_empty.submitAll (fun b hb => nomatch hb) []
    (submissionsOf source) (slotted_of_submissionsOf source)
  rw [List.nil_append] at hholds hlog
  rw [scanOf_eq]
  exact ⟨hholds, hlog⟩

/-! ## 2. The last definition counts -/

theorem poolFrom_find? (path : String) (defs new : Definitions) (hnew : new.Distinct)
    (id : String) :
    (poolFrom path defs new).1.find? id = (new.find? id).or (defs.find? id) := by
  induction new generalizing defs with
  | nil => rfl
  | cons e new ih =>
      obtain ⟨first, a⟩ := e
      obtain ⟨hfirst, hrest⟩ := List.nodup_cons.mp hnew
      have hstep : (poolFrom path defs ((first, a) :: new)).1 =
          (poolFrom path (defs.put first a) new).1 := rfl
      rw [hstep, ih _ hrest, Definitions.find?_put]
      by_cases hid : id = first
      · subst hid
        -- the id does not come again in this file
        have hnone : Definitions.find? new id = none := by
          have hhas : Definitions.has new id = false :=
            Bool.eq_false_iff.mpr fun h => hfirst (Definitions.has_iff.mp h)
          rw [Definitions.has_eq_isSome] at hhas
          exact Option.not_isSome_iff_eq_none.mp (Bool.eq_false_iff.mp hhas)
        have hself : Definitions.find? ((id, a) :: new) id = some a := List.lookup_cons_self
        rw [hnone, hself, if_pos rfl]
        rfl
      · have hskip : Definitions.find? ((first, a) :: new) id = Definitions.find? new id := by
          unfold Definitions.find?
          rw [List.lookup_cons, beq_eq_false_iff_ne.mpr hid]
        rw [hskip, if_neg hid]

/-- **Among files, too, the last definition of an id counts.** -/
theorem pool_find? (files : List (String × List UInt8)) (defs : Definitions) (id : String) :
    (pool defs (files.map scanOf)).1.find? id =
      ((files.flatMap declaredIn).reverse.find? (·.defines id)).or (defs.find? id) := by
  induction files generalizing defs with
  | nil => rfl
  | cons source files ih =>
      have hholds := (scanOf_holds source).1
      have hstep : (pool defs ((source :: files).map scanOf)).1 =
          (pool (poolFrom (scanOf source).path defs (scanOf source).registry.definitions).1
            (files.map scanOf)).1 := rfl
      rw [hstep, ih, poolFrom_find? _ _ _ hholds.distinct, hholds.definitions, List.flatMap_cons,
        List.reverse_append, List.find?_append, Option.or_assoc]

/-! ## 3. Notices about ids that are not unique -/

/-- A notice that an id is not unique. -/
def Diagnostic.saysNotUnique (d : Diagnostic) : Bool :=
  d.severity = .notice && decide ("is not unique".toList <:+: d.message.toList)

/-- How many notices say that an id is not unique. -/
def Log.notUnique (log : Log) : Nat := log.countP (·.saysNotUnique)

theorem Log.notUnique_append (log more : Log) :
    Log.notUnique (log ++ more) = log.notUnique + more.notUnique := List.countP_append

theorem Log.notUnique_eq_zero {log : Log} (h : ∀ d ∈ log, d.saysNotUnique = false) :
    log.notUnique = 0 := by
  refine List.countP_eq_zero.mpr fun d hd => ?_
  rw [h d hd]
  exact Bool.false_ne_true

theorem saysNotUnique_of_isWarning {d : Diagnostic} (h : d.isWarning = true) :
    d.saysNotUnique = false := by
  unfold Diagnostic.isWarning at h
  unfold Diagnostic.saysNotUnique
  rw [of_decide_eq_true h]
  rfl

/-- No other notice has the letter that the phrase needs. -/
theorem saysNotUnique_eq_false {d : Diagnostic} (h : 'q' ∉ d.message.toList) :
    d.saysNotUnique = false := by
  have hphrase : ¬"is not unique".toList <:+: d.message.toList :=
    fun hwithin => h (hwithin.subset (by decide))
  unfold Diagnostic.saysNotUnique
  rw [decide_eq_false hphrase, Bool.and_false]

theorem notUnique_notice (id location : String) :
    Log.notUnique (notice (notUniqueMessage id) location) = 1 := by
  have hphrase : "is not unique".toList <:+: (notUniqueMessage id).toList := by
    refine ⟨("partial=\"" ++ id ++ "\" ").toList, ". another was found".toList, ?_⟩
    simp [notUniqueMessage, String.toList_append]
  have hsays : (Diagnostic.mk .notice (notUniqueMessage id) location).saysNotUnique = true := by
    unfold Diagnostic.saysNotUnique
    rw [decide_eq_true hphrase]
    rfl
  exact List.countP_singleton.trans (if_pos hsays)

theorem Kind.plain_tag (k : Kind) : 'q' ∉ k.tag.toList ∧ 'q' ∉ k.name.toList := by
  cases k <;> decide +kernel

theorem notUnique_of_plain {message : String} (h : 'q' ∉ message.toList) (location : String) :
    Log.notUnique (notice message location) = 0 :=
  Log.notUnique_eq_zero (List.forall_mem_singleton.mpr (saysNotUnique_eq_false h))

theorem plain_misplaced (k : Kind) : 'q' ∉ (misplacedMessage k).toList := by
  unfold misplacedMessage
  simp only [String.toList_append, List.mem_append, not_or]
  exact ⟨⟨by decide, k.plain_tag.1⟩, by decide⟩

theorem plain_homeless (k container : Kind) : 'q' ∉ (homelessMessage k container).toList := by
  unfold homelessMessage
  simp only [String.toList_append, List.mem_append, not_or]
  exact ⟨⟨⟨⟨by decide, k.plain_tag.1⟩, by decide⟩, container.plain_tag.2⟩, by decide⟩

theorem plain_skipped (inner outer : Kind) : 'q' ∉ (skippedMessage inner outer).toList := by
  unfold skippedMessage
  simp only [String.toList_append, List.mem_append, not_or]
  exact ⟨⟨⟨by decide, inner.plain_tag.1⟩, by decide⟩, outer.plain_tag.1⟩

theorem plain_loneReference : 'q' ∉ loneReferenceMessage.toList := by
  unfold loneReferenceMessage
  simp only [String.toList_append, List.mem_append, not_or]
  exact ⟨⟨by decide, Kind.reference.plain_tag.1⟩, by decide⟩

/-! ## 4. Every definition is the first of its id or noticed -/

theorem Definitions.length_put (defs : Definitions) (id : String) (a : Note) :
    (defs.put id a).length = if defs.has id then defs.length else defs.length + 1 := by
  have hkeys := congrArg List.length (Definitions.keys_put defs id a)
  rw [List.length_map] at hkeys
  rw [hkeys]
  split
  · rw [List.length_map]
  · rw [List.length_append, List.length_map]
    rfl

/-- One definition: it makes the table longer, or it is noticed. -/
theorem put_tallies (defs : Definitions) (id location : String) (a : Note) :
    Log.notUnique (if defs.has id then notice (notUniqueMessage id) location else []) +
      (defs.put id a).length = defs.length + 1 := by
  rw [Definitions.length_put]
  split
  · rw [notUnique_notice]
    omega
  · exact Nat.zero_add _

theorem file_tallies (location : String) (r : Registry) (a : Note) :
    Log.notUnique (r.file location a).2.2 + (r.file location a).1.definitions.length =
      r.definitions.length + (definedIds [a]).length := by
  unfold Registry.file definedIds
  simp only [List.filterMap_cons, List.filterMap_nil, Note.definedId?]
  cases hid : a.partialId with
  | some id =>
      cases hk : a.kind with
      | reference =>
          simp only [if_pos, notUnique_of_plain plain_loneReference, List.length_nil]
          omega
      | _ => exact put_tallies r.definitions id location a
  | none =>
      have hplain : ∀ (message : String), 'q' ∉ message.toList →
          Log.notUnique (notice message location) + r.definitions.length =
            r.definitions.length + 0 := by
        intro message h
        rw [notUnique_of_plain h]
        omega
      cases hk : a.kind with
      | reference => exact hplain _ plain_loneReference
      | resource => exact Nat.zero_add _
      | model => exact Nat.zero_add _
      | api =>
          dsimp only
          split
          · exact hplain _ (plain_homeless .api .resource)
          · exact Nat.zero_add _
      | property =>
          dsimp only
          split
          · exact hplain _ (plain_homeless .property .model)
          · exact Nat.zero_add _
      | _ => exact hplain _ (plain_misplaced _)

theorem fileAll_tallies (location : String) (notes : List Note) (r : Registry) :
    Log.notUnique (r.fileAll location notes).2.2 +
        (r.fileAll location notes).1.definitions.length =
      r.definitions.length + (definedIds notes).length := by
  induction notes generalizing r with
  | nil => exact Nat.zero_add _
  | cons a notes ih =>
      have hfirst := file_tallies location r a
      have hrest := ih (r.file location a).1
      have hlog : (r.fileAll location (a :: notes)).2.2 =
          (r.file location a).2.2 ++ ((r.file location a).1.fileAll location notes).2.2 := rfl
      have hlast : (r.fileAll location (a :: notes)).1 =
          ((r.file location a).1.fileAll location notes).1 := rfl
      have hids : (definedIds (a :: notes)).length =
          (definedIds [a]).length + (definedIds notes).length := by
        unfold definedIds
        rw [← List.length_append, ← List.filterMap_append]
        rfl
      rw [hlog, hlast, hids, Log.notUnique_append]
      omega

theorem definedIds_fillFrom (notes : List Note) (target : Target) (comment : String)
    (path : Option String) :
    definedIds (notes.map (·.fillFrom target comment path)) = definedIds notes := by
  unfold definedIds
  rw [List.filterMap_map]
  congr 1
  funext a
  show Note.definedId? (a.fillFrom target comment path) = a.definedId?
  unfold Note.definedId?
  rw [Note.kind_fillFrom, Note.partialId_fillFrom]

/-- One comment. -/
theorem submit_tallies (state : Registry × Log) (c : Submission) :
    (Registry.submit state c).2.notUnique + (Registry.submit state c).1.definitions.length =
      state.2.notUnique + state.1.definitions.length + (definedIds c.read).length := by
  unfold Registry.submit Registry.route Submission.read
  cases c.parsed with
  | error fault =>
      have hwarning : Log.notUnique (warning fault.message c.location) = 0 :=
        Log.notUnique_eq_zero (List.forall_mem_singleton.mpr (saysNotUnique_of_isWarning rfl))
      dsimp only
      rw [Log.notUnique_append, hwarning]
      rfl
  | ok notes =>
      have hfiled := fileAll_tallies c.location (notes.map (·.fillFrom c.target c.comment
        ((state.1.resourceAfter? notes).bind (·.text? .resourcePath)))) state.1
      rw [definedIds_fillFrom] at hfiled
      show Log.notUnique (state.2 ++ _) + _ = _
      rw [Log.notUnique_append, Nat.add_assoc, hfiled, Nat.add_assoc]

/-- **Within a file** the notices and the distinct ids make up all definitions. -/
theorem submitAll_tallies (calls : List Submission) (state : Registry × Log) :
    (calls.foldl Registry.submit state).2.notUnique +
        (calls.foldl Registry.submit state).1.definitions.length =
      state.2.notUnique + state.1.definitions.length +
        (definedIds (calls.flatMap Submission.read)).length := by
  induction calls generalizing state with
  | nil => rfl
  | cons c calls ih =>
      have hfirst := submit_tallies state c
      have hrest := ih (Registry.submit state c)
      have hids : (definedIds ((c :: calls).flatMap Submission.read)).length =
          (definedIds c.read).length + (definedIds (calls.flatMap Submission.read)).length := by
        unfold definedIds
        rw [List.flatMap_cons, List.filterMap_append, List.length_append]
      rw [List.foldl_cons, hids]
      omega

theorem definedIds_declared (before : List Note) (calls : List Submission) :
    definedIds (declared before calls) = definedIds (calls.flatMap Submission.read) := by
  have hid : ∀ notes : List Note, definedIds notes =
      (notes.map fun a => (a.kind, a.partialId)).filterMap
        fun e => if e.1 = .reference then none else e.2 := by
    intro notes
    rw [List.filterMap_map]
    rfl
  rw [hid, headers_declared, ← hid]

theorem scanOf_tallies (source : String × List UInt8) :
    (scanOf source).log.notUnique + (scanOf source).registry.definitions.length =
      (definedIds (declaredIn source)).length := by
  have htally := submitAll_tallies (submissionsOf source) (.empty, [])
  have hstart : Log.notUnique [] + Registry.empty.definitions.length = 0 := rfl
  rw [hstart, Nat.zero_add] at htally
  rw [scanOf_eq, declaredIn, definedIds_declared]
  exact htally

theorem poolFrom_tallies (path : String) (defs new : Definitions) :
    (poolFrom path defs new).2.notUnique + (poolFrom path defs new).1.length =
      defs.length + new.length := by
  induction new generalizing defs with
  | nil => exact Nat.zero_add _
  | cons e new ih =>
      have hfirst := put_tallies defs e.1 path e.2
      have hrest := ih (defs.put e.1 e.2)
      have hlog : (poolFrom path defs (e :: new)).2 =
          (if defs.has e.1 then notice (notUniqueMessage e.1) path else []) ++
            (poolFrom path (defs.put e.1 e.2) new).2 := rfl
      have hlast : (poolFrom path defs (e :: new)).1 =
          (poolFrom path (defs.put e.1 e.2) new).1 := rfl
      rw [hlog, hlast, Log.notUnique_append, List.length_cons]
      omega

/-- **Among files** the notices, those within the files included, and the distinct ids make up all
    definitions. -/
theorem pool_tallies (files : List (String × List UInt8)) (defs : Definitions) :
    (pool defs (files.map scanOf)).2.notUnique +
        Log.notUnique (files.flatMap fun source => (scanOf source).log) +
        (pool defs (files.map scanOf)).1.length =
      defs.length + (definedIds (files.flatMap declaredIn)).length := by
  induction files generalizing defs with
  | nil => exact Nat.zero_add _
  | cons source files ih =>
      have hfile := scanOf_tallies source
      have hfirst := poolFrom_tallies (scanOf source).path defs (scanOf source).registry.definitions
      have hrest := ih
        (poolFrom (scanOf source).path defs (scanOf source).registry.definitions).1
      have hlog : (pool defs ((source :: files).map scanOf)).2 =
          (poolFrom (scanOf source).path defs (scanOf source).registry.definitions).2 ++
            (pool (poolFrom (scanOf source).path defs
              (scanOf source).registry.definitions).1 (files.map scanOf)).2 := rfl
      have hlast : (pool defs ((source :: files).map scanOf)).1 =
          (pool (poolFrom (scanOf source).path defs
            (scanOf source).registry.definitions).1 (files.map scanOf)).1 := rfl
      have hids : (definedIds ((source :: files).flatMap declaredIn)).length =
          (definedIds (declaredIn source)).length +
            (definedIds (files.flatMap declaredIn)).length := by
        unfold definedIds
        rw [List.flatMap_cons, List.filterMap_append, List.length_append]
      rw [hlog, hlast, hids, List.flatMap_cons, Log.notUnique_append, Log.notUnique_append]
      omega

/-! ## 5. The log of a report -/

/-- A run of expansion has only warnings to give. -/
def Expander.Warns (inner : Expander) : Prop :=
  ∀ {chain defs a x}, inner chain defs a = .ok x → ∀ d ∈ x.log, d.isWarning = true

section Warnings

variable {inner : Expander} {location : String} {chain : List String}

theorem followId_warns (hinner : inner.Warns) {a : Note} {defs : Definitions} {id : String}
    {x : Expanded Note} (h : followId inner location chain a defs id = .ok x) :
    ∀ d ∈ x.log, d.isWarning = true := by
  have hone : ∀ message, ∀ d ∈ warning message location, d.isWarning = true := fun _ =>
    List.forall_mem_singleton.mpr rfl
  cases followId_followed h with
  | unknown hnone => exact hone _
  | circular hd hc => exact hone _
  | merged hd hc hk hm => exact nofun
  | inserted hd hc hk hf hg hy =>
      have hlog := hinner hy
      exact hlog
  | refused hd hc hk hf => exact hone _

theorem followIds_warns (hinner : inner.Warns) (ids : List String) {a : Note} {defs : Definitions}
    {x : Expanded Note} (h : followIds inner location chain a defs ids = .ok x) :
    ∀ d ∈ x.log, d.isWarning = true := by
  induction ids generalizing a defs x with
  | nil =>
      cases h
      exact nofun
  | cons id ids ih =>
      unfold followIds at h
      split at h
      · cases h
      · rename_i y hy
        split at h
        · cases h
        · rename_i z hz
          cases h
          exact List.forall_mem_append.mpr ⟨followId_warns hinner hy, ih hz⟩

end Warnings

theorem expandTo_warns (location : String) (depth : Nat) : (expandTo location depth).Warns := by
  induction depth with
  | zero =>
      intro chain defs a x h
      cases h
  | succ depth ih =>
      intro chain defs a x h
      obtain ⟨y, z, hy, hz, rfl⟩ := expandTo_parts h
      obtain ⟨-, logs, hlogs, hflat⟩ := expandFields_logs (I := fun _ => True)
        (P := fun _ log => ∀ d ∈ log, d.isWarning = true) a.kind.nestFields
        a.kind.nestFields_nodup (fun _ _ _ _ _ _ _ hc => ⟨trivial, ih hc⟩) trivial hz
      refine List.forall_mem_append.mpr ⟨followIds_warns ih _ hy, fun d hd => ?_⟩
      rw [hflat] at hd
      obtain ⟨log, hlog, hd⟩ := List.mem_flatten.mp hd
      obtain ⟨c, -, hwarns⟩ := exists_mem_of_forall₂ hlogs hlog
      exact hwarns d hd

theorem expandAll_warns (location : String) (notes : List Note) {defs : Definitions}
    {x : Expanded (List Note)} (h : expandAll location defs notes = .ok x) :
    ∀ d ∈ x.log, d.isWarning = true := by
  induction notes generalizing defs x with
  | nil =>
      cases h
      exact nofun
  | cons a notes ih =>
      unfold expandAll at h
      split at h
      · cases h
      · rename_i y hy
        split at h
        · cases h
        · rename_i z hz
          cases h
          exact List.forall_mem_append.mpr ⟨expandTo_warns location _ hy, ih hz⟩

/-- Validation says nothing about ids. -/
theorem pruneRoots_notUnique (location : String) (roots : List Note) :
    (pruneRoots location roots).2.notUnique = 0 := by
  refine Log.notUnique_eq_zero fun d hd => ?_
  cases hw : d.isWarning with
  | true => exact saysNotUnique_of_isWarning hw
  | false =>
      have hskipped := (pruneRoots_accounts location roots).notices.mem_iff.mp
        (List.mem_filter.mpr ⟨hd, by rw [hw]; rfl⟩)
      obtain ⟨m, -, rfl⟩ := List.mem_map.mp hskipped
      exact saysNotUnique_eq_false (plain_skipped m.2.kind m.1)

/-- **What the scan of a source records from beginning to end**: while its comments are read, while
    its resources and models are expanded, and while they are validated. The definitions are given
    as they are before and after. -/
inductive RecordOf (source : String × List UInt8) (defs : Definitions) : Definitions → Log → Prop
  | mk {x y : Expanded (List Note)}
      (resources : expandAll source.1 defs
        (entries .resource .api .apis (declaredIn source)) = .ok x)
      (models : expandAll source.1 x.definitions
        (entries .model .property .properties (declaredIn source)) = .ok y) :
      RecordOf source defs y.definitions
        (declaredLog [] (submissionsOf source) ++ (x.log ++ y.log) ++
          ((pruneRoots source.1 x.result).2 ++ (pruneRoots source.1 y.result).2))

/-- The records of sources, one after another. -/
inductive RecordsOf : Definitions → List (String × List UInt8) → Definitions → List Log → Prop
  | nil {defs : Definitions} : RecordsOf defs [] defs []
  | cons {source : String × List UInt8} {more : List (String × List UInt8)}
      {defs now last : Definitions} {log : Log} {logs : List Log}
      (first : RecordOf source defs now log) (rest : RecordsOf now more last logs) :
      RecordsOf defs (source :: more) last (log :: logs)

theorem finish_recorded {source : String × List UInt8} {defs : Definitions}
    {x : Expanded Section} (h : (scanOf source).finish defs = .ok x) :
    RecordOf source defs x.definitions x.log := by
  obtain ⟨hholds, hlog⟩ := scanOf_holds source
  have hpath : (scanOf source).path = source.1 := rfl
  unfold FileScan.finish at h
  rw [hpath, hholds.resources, hholds.models] at h
  split at h
  · cases h
  · rename_i r hr
    split at h
    · cases h
    · rename_i m hm
      cases h
      have hrecord := RecordOf.mk hr hm
      rw [← hlog] at hrecord
      simpa only [Registry.readResources, Registry.readModels, List.append_assoc] using hrecord

/-- The log of the second pass holds the records of the sources, in order. -/
theorem finishAll_recorded (files : List (String × List UInt8)) {defs : Definitions}
    {x : Expanded Section} (h : finishAll defs (files.map scanOf) = .ok x) :
    ∃ logs, RecordsOf defs files x.definitions logs ∧ x.log = logs.flatten := by
  induction files generalizing defs x with
  | nil =>
      cases h
      exact ⟨[], .nil, rfl⟩
  | cons source files ih =>
      rw [List.map_cons] at h
      unfold finishAll at h
      split at h
      · cases h
      · rename_i y hy
        split at h
        · cases h
        · rename_i z hz
          cases h
          obtain ⟨logs, hlogs, hflat⟩ := ih hz
          refine ⟨y.log :: logs, .cons (finish_recorded hy) hlogs, ?_⟩
          rw [List.flatten_cons, ← hflat]

/-- Of what a source records, only reading it speaks of ids that are not unique. -/
theorem RecordOf.notUnique_eq {source : String × List UInt8} {defs now : Definitions} {log : Log}
    (h : RecordOf source defs now log) : log.notUnique = (scanOf source).log.notUnique := by
  cases h with
  | mk hr hm =>
      have hx := Log.notUnique_eq_zero fun d hd =>
        saysNotUnique_of_isWarning (expandAll_warns _ _ hr d hd)
      have hy := Log.notUnique_eq_zero fun d hd =>
        saysNotUnique_of_isWarning (expandAll_warns _ _ hm d hd)
      simp only [Log.notUnique_append, hx, hy, pruneRoots_notUnique, (scanOf_holds source).2]
      rfl

theorem RecordsOf.notUnique_eq {files : List (String × List UInt8)} {defs last : Definitions}
    {logs : List Log} (h : RecordsOf defs files last logs) :
    Log.notUnique logs.flatten =
      Log.notUnique (files.flatMap fun source => (scanOf source).log) := by
  induction h with
  | nil => rfl
  | cons first rest ih =>
      rw [List.flatten_cons, List.flatMap_cons, Log.notUnique_append, Log.notUnique_append, ih,
        first.notUnique_eq]

/-! ## 6. The main statement -/

/-- The ids of pooled definitions are the distinct ids that the files define. -/
theorem length_pool (files : List (String × List UInt8)) :
    (pool [] (files.map scanOf)).1.length =
      (definedIds (files.flatMap declaredIn)).dedup.length := by
  have hdistinct : (pool [] (files.map scanOf)).1.Distinct :=
    (pool_written (scansOf files) (scansOf_written files) [] nofun List.nodup_nil).2
  have hperm : ((pool [] (files.map scanOf)).1.map (·.1)).Perm
      (definedIds (files.flatMap declaredIn)).dedup := by
    refine (List.perm_ext_iff_of_nodup hdistinct (List.nodup_dedup _)).mpr fun id => ?_
    rw [List.mem_dedup, mem_definedIds, ← Definitions.has_iff, Definitions.has_eq_isSome,
      pool_find?, Definitions.find?, List.lookup_nil, Option.or_none, isSome_find?_reverse]
  rw [← hperm.length_eq, List.length_map]

/-- What pooling has to say is that ids are not unique. -/
theorem poolFrom_says (path : String) (defs new : Definitions) :
    ∀ d ∈ (poolFrom path defs new).2, ∃ id, d = ⟨.notice, notUniqueMessage id, path⟩ := by
  induction new generalizing defs with
  | nil => exact nofun
  | cons e new ih =>
      refine List.forall_mem_append.mpr ⟨?_, ih (defs.put e.1 e.2)⟩
      split
      · exact List.forall_mem_singleton.mpr ⟨e.1, rfl⟩
      · exact nofun

theorem pool_says (files : List (String × List UInt8)) (defs : Definitions) :
    ∀ d ∈ (pool defs (files.map scanOf)).2,
      ∃ source ∈ files, ∃ id, d = ⟨.notice, notUniqueMessage id, source.1⟩ := by
  induction files generalizing defs with
  | nil => exact nofun
  | cons source files ih =>
      refine List.forall_mem_append.mpr ⟨fun d hd => ?_, fun d hd => ?_⟩
      · exact ⟨source, List.mem_cons_self, poolFrom_says _ _ _ d hd⟩
      · obtain ⟨other, hother, h⟩ := ih _ d hd
        exact ⟨other, List.mem_cons_of_mem source hother, h⟩

/-- **Ids mean their last definition, and every definition beyond the first is noticed once.** For
    any sources, of the annotations that they declare, in the order of the sources and within a
    source in the order in which they are filed:

    * once the definitions are pooled, before anything is expanded, an id finds the last annotation
      that defines it;
    * the notices of the report that an id is not unique, and the distinct ids, are together as many
      as the definitions;
    * the log of the report is what pooling has to say, which is only that ids are not unique, and
      then all that the scans of the sources record, source by source and each record once. -/
theorem last_definition_counts_others_noticed (files : List (String × List UInt8)) :
    (∀ id, (pool [] (scansOf files)).1.find? id =
        (files.flatMap declaredIn).reverse.find? (·.defines id)) ∧
    ∀ r, Report.ofScans (scansOf files) = .ok r →
      r.log.countP (·.saysNotUnique) + (definedIds (files.flatMap declaredIn)).dedup.length =
        (definedIds (files.flatMap declaredIn)).length ∧
      (∀ d ∈ (pool [] (scansOf files)).2,
        ∃ source ∈ files, ∃ id, d = ⟨.notice, notUniqueMessage id, source.1⟩) ∧
      ∃ logs, RecordsOf (pool [] (scansOf files)).1 files r.definitions logs ∧
        r.log = (pool [] (scansOf files)).2 ++ logs.flatten := by
  refine ⟨fun id => (pool_find? files [] id).trans (Option.or_none), fun r hr => ?_⟩
  unfold Report.ofScans at hr
  dsimp only at hr
  cases hx : finishAll (pool [] (scansOf files)).1 (scansOf files) with
  | error e =>
      rw [hx] at hr
      cases hr
  | ok x =>
      rw [hx] at hr
      cases hr
      obtain ⟨logs, hlogs, hflat⟩ := finishAll_recorded files hx
      have htally := pool_tallies files []
      have hcount : Log.notUnique ((pool [] (scansOf files)).2 ++ x.log) =
          (pool [] (files.map scanOf)).2.notUnique +
            Log.notUnique (files.flatMap fun source => (scanOf source).log) := by
        rw [Log.notUnique_append, hflat, hlogs.notUnique_eq]
        rfl
      refine ⟨?_, pool_says files [], logs, hlogs, congrArg _ hflat⟩
      rw [← length_pool]
      have hcount := congrArg (· + (pool [] (files.map scanOf)).1.length) hcount
      exact hcount.trans (htally.trans (Nat.zero_add _))

/-- One id in two files. -/
def repeatedId : List (String × List UInt8) :=
  [("a.php", "<?php /** @SWG\\Items(partial=\"i\") */".toUTF8.toList),
    ("b.php", "<?php /** @SWG\\Api(partial=\"i\") */".toUTF8.toList)]

theorem last_definition_counts_in_repeatedId :
    ∃ r, Report.ofScans (scansOf repeatedId) = .ok r ∧ r.log.countP (·.saysNotUnique) = 1 ∧
      1 + (definedIds (repeatedId.flatMap declaredIn)).dedup.length =
        (definedIds (repeatedId.flatMap declaredIn)).length := by
  have hone : ((Report.ofScans (scansOf repeatedId)).toOption.map fun r =>
      r.log.countP (·.saysNotUnique)) = some 1 := by
    decide +kernel
  obtain ⟨r, hr, hcount⟩ : ∃ r, Report.ofScans (scansOf repeatedId) = .ok r ∧
      r.log.countP (·.saysNotUnique) = 1 := by
    revert hone
    cases Report.ofScans (scansOf repeatedId) with
    | error e => exact nofun
    | ok r => exact fun h => ⟨r, rfl, Option.some.inj h⟩
  have htally := ((last_definition_counts_others_noticed repeatedId).2 r hr).1
  rw [hcount] at htally
  exact ⟨r, hr, hcount, htally⟩

end Marginalia
