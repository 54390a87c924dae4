import Mathlib.Data.List.TakeWhile
import Marginalia.Name
import Marginalia.Proofs.Text.Lowercase

/-!
# Names by their segments

A name is handed around as one text and taken apart again wherever it is used. Here it is a row of
segments (`IsName`), written with separators between them (`joinAll`) and perhaps one in front
(`written`). What the functions on texts do is then said in terms of rows:

* `splitHead_joinAll`, `dropSeparators_written`, `fullyQualified?_joinAll`: a text comes apart where
  its segments meet;
* `Imports.find?_enter`: of the imports under one alias the last one counts;
* `referent`: what the name of a class means, given the namespace and the imports of a file.

Main statement: `resolve_written`.
-/

namespace Marginalia

/-! ## 1. Segments -/

/-- A part of a name: some text without a separator. -/
structure IsSegment (s : String) : Prop where
  nonempty : s ≠ ""
  whole : separator ∉ s.toList

instance (s : String) : Decidable (IsSegment s) :=
  decidable_of_iff (s ≠ "" ∧ separator ∉ s.toList)
    ⟨fun h => ⟨h.1, h.2⟩, fun h => ⟨h.nonempty, h.whole⟩⟩

/-- The segments of a name. -/
structure IsName (segments : List String) : Prop where
  nonempty : segments ≠ []
  proper : ∀ s ∈ segments, IsSegment s

instance (segments : List String) : Decidable (IsName segments) :=
  decidable_of_iff (segments ≠ [] ∧ ∀ s ∈ segments, IsSegment s)
    ⟨fun h => ⟨h.1, h.2⟩, fun h => ⟨h.nonempty, h.proper⟩⟩

/-- Segments with separators between them. -/
def joinAll : List String → String
  | [] => ""
  | [s] => s
  | s :: t :: more => joinNames s (joinAll (t :: more))

/-- A name as it is written, with a separator in front of it if it is rooted. -/
def written (rooted : Bool) (segments : List String) : String :=
  (if rooted then "\\" else "") ++ joinAll segments

theorem IsName.append {a b : List String} (ha : IsName a) (hb : IsName b) : IsName (a ++ b) where
  nonempty h := ha.nonempty (List.append_eq_nil_iff.mp h).1
  proper s hs := (List.mem_append.mp hs).elim (ha.proper s) (hb.proper s)

theorem joinNames_assoc (a b c : String) :
    joinNames (joinNames a b) c = joinNames a (joinNames b c) := by
  simp only [joinNames, String.append_assoc]

theorem joinAll_cons (s : String) {more : List String} (h : more ≠ []) :
    joinAll (s :: more) = joinNames s (joinAll more) := by
  cases more with
  | nil => exact absurd rfl h
  | cons t more => rfl

/-- **Rows joinAll are texts joinAll.** -/
theorem joinAll_append {a b : List String} (ha : a ≠ []) (hb : b ≠ []) :
    joinAll (a ++ b) = joinNames (joinAll a) (joinAll b) := by
  induction a with
  | nil => exact absurd rfl ha
  | cons s a ih =>
      by_cases hempty : a = []
      · subst hempty
        exact joinAll_cons s hb
      · have hne : a ++ b ≠ [] := fun h => hempty (List.append_eq_nil_iff.mp h).1
        rw [List.cons_append, joinAll_cons s hne, ih hempty, joinAll_cons s hempty, joinNames_assoc]

@[simp] theorem written_false (segments : List String) :
    written false segments = joinAll segments := String.empty_append

theorem toList_joinNames (a b : String) :
    (joinNames a b).toList = a.toList ++ separator :: b.toList := by
  simp only [joinNames, String.toList_append, List.append_assoc]
  rfl

theorem toList_written_true (segments : List String) :
    (written true segments).toList = separator :: (joinAll segments).toList := by
  rw [written, if_pos rfl, String.toList_append]
  rfl

/-- A name begins with a character of its first segment. -/
theorem IsName.head {segments : List String} (h : IsName segments) :
    ∃ c cs, (joinAll segments).toList = c :: cs ∧ c ≠ separator := by
  cases segments with
  | nil => exact absurd rfl h.nonempty
  | cons s more =>
      have hs := h.proper s List.mem_cons_self
      obtain ⟨c, cs, hcs⟩ := List.exists_cons_of_ne_nil
        (fun hnil => hs.nonempty (String.toList_eq_nil_iff.mp hnil))
      have hc : c ≠ separator := fun heq => hs.whole (hcs ▸ heq ▸ List.mem_cons_self)
      by_cases hempty : more = []
      · subst hempty
        exact ⟨c, cs, hcs, hc⟩
      · refine ⟨c, cs ++ separator :: (joinAll more).toList, ?_, hc⟩
        rw [joinAll_cons s hempty, toList_joinNames, hcs]
        rfl

theorem IsName.joinAll_ne_empty {segments : List String} (h : IsName segments) :
    joinAll segments ≠ "" := by
  obtain ⟨c, cs, hcs, -⟩ := h.head
  intro hempty
  rw [hempty] at hcs
  cases hcs

/-! ## 2. Names taken apart -/

section Apart

variable {segments : List String} (h : IsName segments)

include h

theorem dropSeparators_joinAll : dropSeparators (joinAll segments) = joinAll segments := by
  obtain ⟨c, cs, hcs, hc⟩ := h.head
  have hkeep : (joinAll segments).toList.dropWhile (· = separator) = (joinAll segments).toList := by
    rw [hcs, List.dropWhile_cons_of_neg (by simpa using hc)]
  rw [dropSeparators, hkeep, String.ofList_toList]

/-- **The separator in front of a rooted name can be told from the name.** -/
theorem dropSeparators_written (rooted : Bool) :
    dropSeparators (written rooted segments) = joinAll segments := by
  cases rooted with
  | false => rw [written_false, dropSeparators_joinAll h]
  | true =>
      have hdrop : (written true segments).toList.dropWhile (· = separator) =
          (joinAll segments).toList.dropWhile (· = separator) := by
        rw [toList_written_true, List.dropWhile_cons_of_pos (by simp)]
      have hjoined := dropSeparators_joinAll h
      unfold dropSeparators at hjoined ⊢
      rw [hdrop, hjoined]

theorem fullyQualified?_joinAll : fullyQualified? (joinAll segments) = none := by
  obtain ⟨c, cs, hcs, hc⟩ := h.head
  unfold fullyQualified?
  rw [hcs]
  split
  · rename_i heq
    cases heq
    exact absurd rfl hc
  · rfl

end Apart

theorem fullyQualified?_written_true (segments : List String) :
    fullyQualified? (written true segments) = some (joinAll segments) := by
  have hlist : (written true segments).toList = '\\' :: (joinAll segments).toList :=
    toList_written_true segments
  rw [fullyQualified?, hlist]
  exact congrArg some String.ofList_toList

theorem ne_separator_of_isSegment {s : String} (hs : IsSegment s) :
    ∀ c ∈ s.toList, (c != separator) = true :=
  fun _ hc => bne_iff_ne.mpr fun heq => hs.whole (heq ▸ hc)

/-- The head of a name and the rest, if there is one. -/
theorem splitHead_joinAll {head : String} {rest : List String} (h : IsName (head :: rest)) :
    splitHead (joinAll (head :: rest)) =
      (head, if rest = [] then none else some (joinAll rest)) := by
  have hhead := ne_separator_of_isSegment (h.proper head List.mem_cons_self)
  unfold splitHead
  by_cases hempty : rest = []
  · subst hempty
    have hdrop : (joinAll [head]).toList.dropWhile (· != separator) = [] :=
      List.dropWhile_eq_nil_iff.mpr hhead
    simp only [hdrop, if_true]
    rfl
  · have hlist : (joinAll (head :: rest)).toList =
        head.toList ++ separator :: (joinAll rest).toList := by
      rw [joinAll_cons head hempty, toList_joinNames]
    have hdrop : (joinAll (head :: rest)).toList.dropWhile (· != separator) =
        separator :: (joinAll rest).toList := by
      rw [hlist, List.dropWhile_append_of_pos hhead, List.dropWhile_cons_of_neg (by simp)]
    have htake : (joinAll (head :: rest)).toList.takeWhile (· != separator) = head.toList := by
      rw [hlist, List.takeWhile_append_of_pos hhead, List.takeWhile_cons_of_neg (by simp),
        List.append_nil]
    simp only [hdrop, htake, if_neg hempty, String.ofList_toList]

/-! ## 3. Imports -/

/-- An imported name with its alias. -/
structure Import where
  target : List String
  short : String
  isName : IsName target

/-- Whether an import gives a head its meaning: aliases are compared in lower case. -/
def Import.goesBy (i : Import) (head : String) : Bool :=
  Text.lowercase i.short == Text.lowercase head

/-- Enters an import into a table. -/
def Imports.enter (table : Imports) (i : Import) : Imports := table.add i.short (joinAll i.target)

/-- A table whose aliases are in lower case. -/
def Aliases.InLowerCase (aliases : Aliases) : Prop := ∀ e ∈ aliases, Text.lowercase e.1 = e.1

theorem Aliases.InLowerCase.put {aliases : Aliases} (h : aliases.InLowerCase)
    (short target : String) : (aliases.put (Text.lowercase short) target).InLowerCase := by
  intro e he
  unfold Aliases.put at he
  split at he
  · obtain ⟨old, hold, rfl⟩ := List.mem_map.mp he
    split
    · exact Text.lowercase_lowercase short
    · exact h old hold
  · rcases List.mem_append.mp he with he | he
    · exact h e he
    · rw [List.mem_singleton.mp he]
      exact Text.lowercase_lowercase short

/-- In a table in lower case a second lowering finds nothing else. -/
theorem Aliases.InLowerCase.findLower? {aliases : Aliases} (h : aliases.InLowerCase)
    (head : String) : aliases.findLower? head = aliases.find? (Text.lowercase head) := by
  have hsame : (aliases.map fun e => (Text.lowercase e.1, e.2)) = aliases := by
    refine (List.map_congr_left fun e he => ?_).trans (List.map_id aliases)
    exact Prod.ext (h e he) rfl
  rw [Aliases.findLower?, hsame]

/-- What an alias stands for once one of the entries has been made anew. -/
theorem lookup_replaced (entries : Aliases) (short target key : String) :
    (entries.map fun e => if e.1 == short then (short, target) else e).lookup key =
      if key = short then (if entries.any (·.1 == short) then some target else none)
      else entries.lookup key := by
  induction entries with
  | nil => simp
  | cons e entries ih =>
      obtain ⟨old, value⟩ := e
      rw [List.map_cons, List.any_cons]
      by_cases hold : old = short
      · subst hold
        by_cases hkey : key = old
        · simp [hkey]
        · have hne : (key == old) = false := beq_eq_false_iff_ne.mpr hkey
          simp only [beq_self_eq_true, if_true, List.lookup_cons, hne, ih, if_neg hkey]
      · have hne : (old == short) = false := beq_eq_false_iff_ne.mpr hold
        simp only [hne, Bool.false_eq_true, if_false, List.lookup_cons, ih, Bool.false_or]
        by_cases hkey : key = short
        · subst hkey
          have hkeyOld : (key == old) = false := beq_eq_false_iff_ne.mpr fun h => hold h.symm
          simp only [hkeyOld, if_true]
        · simp only [if_neg hkey]

theorem Aliases.find?_put (aliases : Aliases) (short target key : String) :
    (aliases.put short target).find? key =
      if key = short then some target else aliases.find? key := by
  unfold Aliases.put Aliases.find?
  split
  · rename_i hthere
    rw [← List.map_reverse, lookup_replaced, List.any_reverse, if_pos hthere]
  · rw [List.reverse_append, List.reverse_singleton, List.singleton_append, List.lookup_cons]
    by_cases hkey : key = short
    · simp [hkey]
    · rw [beq_eq_false_iff_ne.mpr hkey, if_neg hkey]

/-- **Of the imports under one alias the last one counts**, and one of those that were there before
    if there is none. -/
theorem Imports.find?_enter (table : Imports) (imports : List Import) (head : String) :
    (imports.foldl Imports.enter table).entries.find? (Text.lowercase head) =
      ((imports.reverse.find? (·.goesBy head)).map fun i => joinAll i.target).or
        (table.entries.find? (Text.lowercase head)) := by
  -- from the left: the first import goes into the table, and any later one takes precedence
  induction imports generalizing table with
  | nil => rfl
  | cons i imports ih =>
      have hadd : (table.enter i).entries.find? (Text.lowercase head) =
          if Text.lowercase head = Text.lowercase i.short then some (joinAll i.target)
          else table.entries.find? (Text.lowercase head) := by
        unfold Imports.enter Imports.add
        rw [Aliases.find?_put, dropSeparators_joinAll i.isName]
      rw [List.foldl_cons, ih, hadd, List.reverse_cons, List.find?_append, Option.map_or,
        Option.or_assoc]
      refine congrArg _ ?_
      by_cases hgoes : Text.lowercase head = Text.lowercase i.short
      · have hby : i.goesBy head = true := beq_iff_eq.mpr hgoes.symm
        simp only [if_pos hgoes, List.find?_cons, hby, Option.map_some, Option.some_or]
      · have hby : i.goesBy head = false := beq_eq_false_iff_ne.mpr (Ne.symm hgoes)
        simp only [if_neg hgoes, List.find?_cons, hby, List.find?_nil, Option.map_none,
          Option.none_or]

theorem Imports.inLowerCase_enter {table : Imports} (h : table.entries.InLowerCase)
    (imports : List Import) : (imports.foldl Imports.enter table).entries.InLowerCase := by
  induction imports generalizing table with
  | nil => exact h
  | cons i imports ih => exact ih (h.put i.short _)

/-! ## 4. What the name of a class means -/

/-- **What the name of a class means** in a namespace (empty outside of any) and behind imports. -/
def referent (space : List String) (imports : List Import) :
    (rooted : Bool) → (segments : List String) → List String
  | true, segments => segments
  | false, [] => space
  | false, head :: rest =>
    match imports.reverse.find? (·.goesBy head) with
    | some i => i.target ++ rest
    | none => space ++ head :: rest

theorem substituteHead_joinAll {target rest : List String} (htarget : target ≠ []) :
    substituteHead (joinAll target) (if rest = [] then none else some (joinAll rest)) =
      joinAll (target ++ rest) := by
  by_cases hempty : rest = []
  · subst hempty
    rw [if_pos rfl, List.append_nil]
    rfl
  · rw [if_neg hempty, joinAll_append htarget hempty]
    rfl

/-- A name of a namespace in full. -/
theorem qualify_joinAll {scope : Scope} {space : List String} (hspace : ∀ s ∈ space, IsSegment s)
    (hscope : scope.namespaceName = joinAll space) (name : String) :
    scope.qualify name = joinAll (space ++ [name]) := by
  rw [Scope.qualify, hscope]
  by_cases hempty : space = []
  · subst hempty
    rfl
  · rw [if_neg (IsName.mk hempty hspace).joinAll_ne_empty,
      joinAll_append hempty (List.cons_ne_nil name [])]
    rfl

/-- **A class reference means its referent.** -/
theorem resolve_written {scope : Scope} {space : List String} {imports : List Import}
    (hspace : ∀ s ∈ space, IsSegment s) (hscope : scope.namespaceName = joinAll space)
    (himports : scope.imports = imports.foldl Imports.enter .empty) (rooted : Bool)
    {segments : List String} (hname : IsName segments) :
    scope.resolve (written rooted segments) = joinAll (referent space imports rooted segments) := by
  unfold Scope.resolve resolveReference
  cases rooted with
  | true =>
      rw [fullyQualified?_written_true]
      rfl
  | false =>
      obtain ⟨head, rest, rfl⟩ := List.exists_cons_of_ne_nil hname.nonempty
      have hlower : scope.imports.entries.InLowerCase := by
        rw [himports]
        exact Imports.inLowerCase_enter (fun _ he => absurd he List.not_mem_nil) imports
      have hfind : scope.imports.entries.findLower? head =
          (imports.reverse.find? (·.goesBy head)).map fun i => joinAll i.target := by
        rw [hlower.findLower?, himports, Imports.find?_enter]
        exact Option.or_none
      rw [written_false, fullyQualified?_joinAll hname, splitHead_joinAll hname]
      dsimp only
      rw [hfind]
      cases hlast : imports.reverse.find? (·.goesBy head) with
      | some i =>
          simp only [referent, hlast, Option.map_some]
          exact substituteHead_joinAll i.isName.nonempty
      | none =>
          simp only [referent, hlast, Option.map_none, hscope]
          by_cases hempty : space = []
          · subst hempty
            rfl
          · rw [if_neg (IsName.mk hempty hspace).joinAll_ne_empty,
              joinAll_append hempty (List.cons_ne_nil head rest)]

end Marginalia
