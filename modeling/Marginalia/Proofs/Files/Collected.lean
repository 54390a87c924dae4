import Mathlib.Data.List.Forall2
import Mathlib.Data.List.TakeWhile
import Marginalia.Proofs.Files.Watched
import Marginalia.Proofs.Note.Slots

/-!
# What a scan collects, exactly

The files that paths stand for, told without going through a tree:

* `HasSourceSuffix`: which names end in the suffix of a source file;
* `Workspace.IsSourceBelow`: which paths lead on from a directory to a source file, through
  directories that are not excluded;
* `Workspace.StandsFor`: what one path stands for, a file for itself and a directory for its source
  files in strict order. The order fixes the row, since every file has one place in it;
* `collect_exact`: paths stand for their files one behind the other, or the first of them that leads
  nowhere is named.
-/

namespace Marginalia

/-! ## 1. Suffixes -/

/-- **The name ends in the suffix of a source file**, in any case: the suffix starts at the last
    dot, and something stands before that. -/
def HasSourceSuffix (name : String) : Prop :=
  ∃ stem ending : List Char, stem ≠ [] ∧ '.' ∉ ending ∧ name.toList = stem ++ '.' :: ending ∧
    Text.lowercase (String.ofList ('.' :: ending)) ∈ sourceSuffixes

/-- What stands behind the last dot, read from the end. -/
theorem takeWhile_ne_dot {ending : List Char} (h : '.' ∉ ending) (front : List Char) :
    (ending.reverse ++ '.' :: front).takeWhile (· != '.') = ending.reverse ∧
      (ending.reverse ++ '.' :: front).dropWhile (· != '.') = '.' :: front := by
  have hall : ∀ c ∈ ending.reverse, (c != '.') = true := fun c hc =>
    bne_iff_ne.mpr fun heq => h (heq ▸ List.mem_reverse.mp hc)
  constructor
  · rw [List.takeWhile_append_of_pos hall, List.takeWhile_cons_of_neg (by decide),
      List.append_nil]
  · rw [List.dropWhile_append_of_pos hall, List.dropWhile_cons_of_neg (by decide)]

theorem suffixOf_append {stem ending : List Char} (hstem : stem ≠ []) (hne : ending ≠ [])
    (h : '.' ∉ ending) : Path.suffixOf (stem ++ '.' :: ending) = '.' :: ending := by
  obtain ⟨htake, hdrop⟩ := takeWhile_ne_dot h stem.reverse
  have hreverse : (stem ++ '.' :: ending).reverse = ending.reverse ++ '.' :: stem.reverse := by
    simp
  obtain ⟨c, rest, hcons⟩ := List.exists_cons_of_ne_nil
    (fun h => hstem (List.reverse_eq_nil_iff.mp h))
  unfold Path.suffixOf
  rw [hreverse, hdrop, htake, hcons]
  dsimp only
  rw [List.reverse_reverse, if_neg (by simpa using hne)]

/-- A name with a suffix falls into what stands before the last dot, and the suffix. -/
theorem exists_stem_of_suffixOf {name : List Char} (h : Path.suffixOf name ≠ []) :
    ∃ stem ending, stem ≠ [] ∧ '.' ∉ ending ∧ name = stem ++ '.' :: ending ∧
      Path.suffixOf name = '.' :: ending := by
  have hcut : name.reverse.takeWhile (· != '.') ++ name.reverse.dropWhile (· != '.') =
      name.reverse := List.takeWhile_append_dropWhile
  have hfree : '.' ∉ (name.reverse.takeWhile (· != '.')).reverse := fun hmem =>
    absurd (List.mem_takeWhile_imp (List.mem_reverse.mp hmem)) (by decide)
  unfold Path.suffixOf at h ⊢
  split
  · rename_i hdrop
    rw [hdrop] at h
    exact absurd rfl h
  · rename_i c hdrop
    rw [hdrop] at h
    exact absurd rfl h
  · rename_i c d front hdrop
    rw [hdrop] at h hcut
    -- what the search stopped at is the dot
    have hc : c = '.' := by
      have hhead := List.head?_dropWhile_not (· != '.') name.reverse
      rw [hdrop] at hhead
      simpa using hhead
    subst hc
    dsimp only at h ⊢
    split at h
    · exact absurd rfl h
    · rename_i hne
      refine ⟨(d :: front).reverse, _, by simp, hfree, ?_, if_neg hne⟩
      have hname := congrArg List.reverse hcut
      rw [List.reverse_reverse, List.reverse_append, List.reverse_cons] at hname
      rw [List.append_assoc] at hname
      exact hname.symm

/-- **A path is that of a source file exactly by the name it ends in.** -/
theorem isSource_append_iff (p : Path) (dirs : List String) (name : String) :
    (p.append (dirs ++ [name])).isSource = true ↔ HasSourceSuffix name := by
  have hname : (p.append (dirs ++ [name])).name = name := by
    unfold Path.name Path.append
    rw [← List.append_assoc, List.getLast?_concat]
    rfl
  unfold Path.isSource Path.suffix
  rw [hname, List.contains_iff_mem]
  constructor
  · intro h
    have hne : Path.suffixOf name.toList ≠ [] := by
      intro hnil
      rw [hnil] at h
      exact absurd h (by decide)
    obtain ⟨stem, ending, hstem, hfree, hsplit, hsuffix⟩ := exists_stem_of_suffixOf hne
    rw [hsuffix] at h
    exact ⟨stem, ending, hstem, hfree, hsplit, h⟩
  · rintro ⟨stem, ending, hstem, hfree, hsplit, h⟩
    have hne : ending ≠ [] := by
      rintro rfl
      exact absurd h (by decide)
    rw [hsplit, suffixOf_append hstem hne hfree]
    exact h

/-! ## 2. Files below a directory -/

namespace FileTree

/-- What stands at an address other than the root is an entry. -/
theorem at?_eq_some_iff (t : FileTree) {a : Address} (ha : a ≠ []) (e : Entry) :
    t.at? a = some e ↔ (a, e) ∈ t.entries := by
  have hn : (t.entries.map (·.1)).Nodup := by
    rw [List.nodup_iff_pairwise_ne, List.pairwise_map]
    refine t.ordered.imp fun {x y} hlt heq => ?_
    rw [heq] at hlt
    exact List.lt_irrefl _ hlt
  unfold FileTree.at?
  rw [if_neg ha]
  exact ⟨mem_of_lookup, lookup_of_mem (e := (a, e)) hn⟩

theorem mem_filesBelow_iff {t : FileTree} {a names : Address} :
    names ∈ t.filesBelow a ↔ ∃ bytes, (a ++ names, Entry.file bytes) ∈ t.entries := by
  unfold filesBelow
  rw [List.mem_filterMap]
  constructor
  · rintro ⟨⟨b, e⟩, hentry, hbelow⟩
    cases e with
    | directory => cases hbelow
    | file bytes =>
        dsimp only at hbelow
        split at hbelow
        · rename_i hfront
          cases hbelow
          obtain ⟨rest, rfl⟩ := List.isPrefixOf_iff_prefix.mp hfront
          rw [List.drop_left]
          exact ⟨bytes, hentry⟩
        · cases hbelow
  · rintro ⟨bytes, hentry⟩
    refine ⟨_, hentry, ?_⟩
    dsimp only
    rw [if_pos (List.isPrefixOf_iff_prefix.mpr (List.prefix_append a names)), List.drop_left]

theorem lt_of_append_lt_append {a names names' : Address} (h : a ++ names < a ++ names') :
    names < names' := by
  induction a with
  | nil => exact h
  | cons d a ih =>
      rcases List.cons_lt_cons_iff.mp h with hlt | ⟨-, hlt⟩
      · exact absurd hlt (String.lt_irrefl d)
      · exact ih hlt

/-- What is listed below an address comes in strict order. -/
theorem pairwise_filesBelow (t : FileTree) (a : Address) : (t.filesBelow a).Pairwise (· < ·) := by
  unfold filesBelow
  refine t.ordered.filterMap _ fun x y hlt names hx names' hy => ?_
  obtain ⟨b, e⟩ := x
  obtain ⟨b', e'⟩ := y
  cases e with
  | directory => cases hx
  | file bytes =>
      cases e' with
      | directory => cases hy
      | file bytes' =>
          dsimp only at hx hy hlt
          split at hx
          · split at hy
            · rename_i hfront hfront'
              cases hx
              cases hy
              obtain ⟨rest, rfl⟩ := List.isPrefixOf_iff_prefix.mp hfront
              obtain ⟨rest', rfl⟩ := List.isPrefixOf_iff_prefix.mp hfront'
              rw [List.drop_left, List.drop_left]
              exact lt_of_append_lt_append hlt
            · cases hy
          · cases hx

end FileTree

/-- **The path leads on from a directory to a source file**, through directories none of which is
    excluded: `p` is the path of the directory and `a` its address. -/
def Workspace.IsSourceBelow (w : Workspace) (exclude : List String) (p : Path) (a : Address)
    (f : Path) : Prop :=
  ∃ dirs name bytes, f = p.append (dirs ++ [name]) ∧
    w.tree.at? (a ++ (dirs ++ [name])) = some (.file bytes) ∧ HasSourceSuffix name ∧
      ∀ d ∈ dirs, d ∉ exclude

theorem Workspace.mem_sourcesBelow_iff {w : Workspace} {exclude : List String} {a : Address}
    {names : Address} (p : Path) :
    names ∈ w.sourcesBelow exclude a ↔ w.IsSourceBelow exclude p a (p.append names) := by
  unfold Workspace.sourcesBelow
  rw [List.mem_filter, FileTree.mem_filesBelow_iff, Bool.and_eq_true, Bool.not_eq_true']
  constructor
  · rintro ⟨⟨bytes, hentry⟩, hsource, hexclude⟩
    obtain ⟨dirs, name, rfl⟩ : ∃ dirs name, names = dirs ++ [name] :=
      ⟨_, _, (List.dropLast_concat_getLast (Path.ne_nil_of_isSource hsource)).symm⟩
    refine ⟨dirs, name, bytes, rfl, ?_, (isSource_append_iff ⟨"", []⟩ dirs name).mp hsource, ?_⟩
    · exact (w.tree.at?_eq_some_iff (by simp) _).mpr hentry
    · unfold isExcluded at hexclude
      rw [List.dropLast_concat, List.any_eq_false] at hexclude
      simpa using hexclude
  · rintro ⟨dirs, name, bytes, hpath, hentry, hsource, hexclude⟩
    obtain rfl : names = dirs ++ [name] := List.append_cancel_left (congrArg Path.parts hpath)
    refine ⟨⟨bytes, (w.tree.at?_eq_some_iff (by simp) _).mp hentry⟩,
      (isSource_append_iff ⟨"", []⟩ dirs name).mpr hsource, ?_⟩
    unfold isExcluded
    rw [List.dropLast_concat, List.any_eq_false]
    simpa using hexclude

/-! ## 3. What paths stand for -/

/-- Whether a path leads anywhere. -/
def Workspace.LeadsSomewhere (w : Workspace) (raw : String) : Prop :=
  w.find? (Path.ofString raw) ≠ none

/-- **The files that a path stands for**: a file for itself, whatever it is called, and a directory
    for the source files below it, each of them once and in the order of their components. -/
inductive Workspace.StandsFor (w : Workspace) (exclude : List String) (raw : String) :
    List Path → Prop
  | file {a : Address} {bytes : List UInt8}
      (found : w.find? (Path.ofString raw) = some (a, .file bytes)) :
      StandsFor w exclude raw [Path.ofString raw]
  | directory {a : Address} {files : List Path}
      (found : w.find? (Path.ofString raw) = some (a, .directory))
      (sorted : files.Pairwise fun f g => f.parts < g.parts)
      (members : ∀ f, f ∈ files ↔ w.IsSourceBelow exclude (Path.ofString raw) a f) :
      StandsFor w exclude raw files

/-- A path that leads somewhere stands for files, and these are found. -/
theorem Workspace.sourcesAt_standsFor {w : Workspace} (exclude : List String) {raw : String}
    (h : w.LeadsSomewhere raw) :
    ∃ files, w.StandsFor exclude raw files ∧ w.sourcesAt exclude raw = .ok files := by
  unfold Workspace.LeadsSomewhere at h
  unfold Workspace.sourcesAt
  dsimp only
  cases hfind : w.find? (Path.ofString raw) with
  | none => exact absurd hfind h
  | some found =>
      obtain ⟨a, e⟩ := found
      cases e with
      | file bytes => exact ⟨_, .file hfind, rfl⟩
      | directory =>
          refine ⟨_, .directory hfind ?_ fun f => ?_, rfl⟩
          · rw [List.pairwise_map]
            exact ((w.tree.pairwise_filesBelow a).filter _).imp List.append_left_lt
          · rw [List.mem_map]
            constructor
            · rintro ⟨names, hnames, rfl⟩
              exact (Workspace.mem_sourcesBelow_iff _).mp hnames
            · intro hf
              obtain ⟨dirs, name, bytes, rfl, -⟩ := id hf
              exact ⟨_, (Workspace.mem_sourcesBelow_iff _).mpr hf, rfl⟩

theorem Workspace.sourcesAt_of_not_leads {w : Workspace} (exclude : List String) {raw : String}
    (h : ¬w.LeadsSomewhere raw) : w.sourcesAt exclude raw = .error (.notFound raw) := by
  unfold Workspace.sourcesAt
  dsimp only
  rw [not_not.mp h]

/-- **Paths stand for their files, one behind the other**: those of each path in its turn. If some
    path leads nowhere, then nothing is collected and the first such path is named. -/
theorem collect_exact (w : Workspace) (exclude paths : List String) :
    (∃ found, List.Forall₂ (w.StandsFor exclude) paths found ∧
        w.collect exclude paths = .ok found.flatten) ∨
      ∃ before raw behind, paths = before ++ raw :: behind ∧
        (∀ p ∈ before, w.LeadsSomewhere p) ∧ ¬w.LeadsSomewhere raw ∧
          w.collect exclude paths = .error (.notFound raw) := by
  induction paths with
  | nil => exact .inl ⟨[], .nil, rfl⟩
  | cons raw paths ih =>
      by_cases hraw : w.LeadsSomewhere raw
      · obtain ⟨files, hstands, hfiles⟩ := Workspace.sourcesAt_standsFor exclude hraw
        rw [Workspace.collect, hfiles]
        rcases ih with ⟨found, hfound, hcollect⟩ |
          ⟨before, lost, behind, rfl, hbefore, hlost, hcollect⟩
        · refine .inl ⟨files :: found, .cons hstands hfound, ?_⟩
          rw [hcollect]
          rfl
        · refine .inr ⟨raw :: before, lost, behind, rfl, ?_, hlost, ?_⟩
          · exact List.forall_mem_cons.mpr ⟨hraw, hbefore⟩
          · rw [hcollect]
      · refine .inr ⟨[], raw, paths, rfl, List.forall_mem_nil _, hraw, ?_⟩
        rw [Workspace.collect, Workspace.sourcesAt_of_not_leads exclude hraw]

end Marginalia
