import Marginalia.Proofs.Files.Paths

/-!
# What is scanned and what is watched

Two rules decide about a file. A scan collects the sources below a directory by the names that lead
to them from there (`Workspace.collect`); a watcher sees a written path and goes by its components,
those that lead to the directory and the name of the file included (`changeMatters`).

* `changeMatters_text`: what the watcher goes by, in terms of the components of the path;
* `mem_collect_directory`: what a scan of a directory collects, in the same terms;
* `collected_source_watched`: a collected file is watched unless it lies in a directory whose
  contents never matter or has a name that editors use. Only the names to exclude may tell the two
  rules apart beyond that, where one of them leads to the directory or is the name of the file.
-/

namespace Marginalia

/-! ## 1. The suffix is the last component's -/

theorem Path.name_append {p : Path} {names : List String} (hne : names ≠ []) :
    (p.append names).name = (Path.mk "" names).name := by
  unfold Path.name Path.append
  rw [List.getLast?_append, List.getLast?_eq_some_getLast hne, Option.some_or]

theorem Path.isSource_congr {p q : Path} (h : p.name = q.name) : p.isSource = q.isSource := by
  unfold Path.isSource Path.suffix
  rw [h]

/-- A source file has a name. -/
theorem Path.ne_nil_of_isSource {names : List String} (h : (Path.mk "" names).isSource = true) :
    names ≠ [] := by
  rintro rfl
  exact absurd h (by decide)

/-! ## 2. What the watcher goes by -/

/-- **A change of a written path matters** if the path is that of a source file, none of its
    components names a directory to ignore, and the last one is not a name that editors use. -/
theorem changeMatters_text {p : Path} (hp : p.Proper) (hne : p.parts ≠ []) (exclude : List String) :
    changeMatters exclude p.text = true ↔
      p.isSource = true ∧ (∀ c ∈ p.parts, c ∉ ignoredDirectories ∧ c ∉ exclude) ∧
        isTemporaryName p.name.toList = false := by
  have hsource : (Path.ofString p.text).isSource = p.isSource := by
    refine Path.isSource_congr ?_
    unfold Path.name
    rw [parts_ofString_text hp hne]
  have hlast : (p.parts.map String.toList).getLast?.getD [] = p.name.toList := by
    unfold Path.name
    rw [List.getLast?_map]
    cases p.parts.getLast? <;> rfl
  unfold changeMatters
  simp only [pieces_text hp hne, hsource, hlast, Bool.and_eq_true, Bool.not_eq_true',
    List.any_eq_false, List.forall_mem_map, String.ofList_toList, List.contains_iff_mem,
    List.mem_append, not_or, and_assoc]

/-! ## 3. What a scan collects -/

theorem FileTree.WellNamed.mem_filesBelow {t : FileTree} (h : t.WellNamed) {a names : Address}
    (hmem : names ∈ t.filesBelow a) : ∀ name ∈ names, IsComponent name := by
  obtain ⟨⟨b, e⟩, hentry, hbelow⟩ := List.mem_filterMap.mp hmem
  cases e with
  | directory => cases hbelow
  | file bytes =>
      dsimp only at hbelow
      split at hbelow
      · cases hbelow
        exact fun name hname => h _ hentry name (List.mem_of_mem_drop hname)
      · cases hbelow

/-- **A scan of a directory** collects paths that lead on from it to source files, through
    directories that are not excluded. -/
theorem mem_collect_directory {w : Workspace} (hw : w.tree.WellNamed) (exclude : List String)
    {d : String} (hd : w.isDirectory (Path.ofString d) = true) :
    ∃ files, w.collect exclude [d] = .ok files ∧
      ∀ f ∈ files, ∃ names, f = (Path.ofString d).append names ∧ names ≠ [] ∧
        f.Proper ∧ f.isSource = true ∧ ∀ c ∈ names.dropLast, c ∉ exclude := by
  unfold Workspace.isDirectory at hd
  split at hd
  case h_2 => cases hd
  rename_i a hfind
  refine ⟨(w.sourcesBelow exclude a).map (Path.ofString d).append, ?_, ?_⟩
  · simp only [Workspace.collect, Workspace.sourcesAt, hfind, List.append_nil]
  · intro f hf
    obtain ⟨names, hnames, rfl⟩ := List.mem_map.mp hf
    obtain ⟨hbelow, hkept⟩ := List.mem_filter.mp hnames
    simp only [Bool.and_eq_true, Bool.not_eq_true', isExcluded, List.any_eq_false,
      List.contains_iff_mem] at hkept
    have hne := Path.ne_nil_of_isSource hkept.1
    refine ⟨names, rfl, hne, ?_, ?_, hkept.2⟩
    · exact (Path.proper_ofString d).append (hw.mem_filesBelow hbelow)
    · rw [Path.isSource_congr (Path.name_append hne)]
      exact hkept.1

/-! ## 4. Scanned and watched -/

/-- The components of a path that leads on from another one: those of the other, those between, and
    its own name. -/
theorem mem_parts_append {p : Path} {names : List String} (hne : names ≠ []) {c : String}
    (h : c ∈ (p.append names).parts) :
    c ∈ p.parts ∨ c ∈ names.dropLast ∨ c = (p.append names).name := by
  rcases List.mem_append.mp h with h | h
  · exact Or.inl h
  · refine Or.inr ?_
    rw [← List.dropLast_concat_getLast hne, List.mem_append, List.mem_singleton] at h
    refine h.imp id fun hlast => ?_
    rw [hlast, Path.name_append hne]
    unfold Path.name
    rw [List.getLast?_eq_some_getLast hne]
    rfl

/-- **A file that a scan of a directory collects is watched**: a change of its path matters, as long
    as no name to exclude leads to the directory or is that of the file, unless a component of the
    path names a directory whose contents never matter or the file has a name that editors use. In
    these two cases a change never matters. -/
theorem collected_source_watched (w : Workspace) (hw : w.tree.WellNamed) (exclude : List String)
    (d : String) (hd : w.isDirectory (Path.ofString d) = true) :
    ∃ files, w.collect exclude [d] = .ok files ∧
      ∀ f ∈ files,
        ((∀ c ∈ f.parts, c ∉ ignoredDirectories) → isTemporaryName f.name.toList = false →
          (∀ c ∈ (Path.ofString d).parts, c ∉ exclude) → f.name ∉ exclude →
            changeMatters exclude f.text = true) ∧
        ((∃ c ∈ f.parts, c ∈ ignoredDirectories) ∨ isTemporaryName f.name.toList = true →
          changeMatters exclude f.text = false) := by
  obtain ⟨files, hcollect, hfiles⟩ := mem_collect_directory hw exclude hd
  refine ⟨files, hcollect, fun f hf => ?_⟩
  obtain ⟨names, rfl, hne, hproper, hsource, hbetween⟩ := hfiles f hf
  have hparts : ((Path.ofString d).append names).parts ≠ [] :=
    List.append_ne_nil_of_right_ne_nil _ hne
  have hmatters := changeMatters_text hproper hparts exclude
  constructor
  · intro hignored htemporary habove hname
    refine hmatters.mpr ⟨hsource, fun c hc => ⟨hignored c hc, ?_⟩, htemporary⟩
    rcases mem_parts_append hne hc with hc | hc | rfl
    · exact habove c hc
    · exact hbetween c hc
    · exact hname
  · intro hno
    refine Bool.eq_false_iff.mpr fun hyes => ?_
    obtain ⟨-, hclear, htemporary⟩ := hmatters.mp hyes
    rcases hno with ⟨c, hc, hignored⟩ | hno
    · exact (hclear c hc).1 hignored
    · rw [htemporary] at hno
      cases hno

/-- A workspace with one empty file. -/
def Workspace.single (path : String) : Workspace :=
  Workspace.empty.write (Path.ofString path) (.file [])

theorem collected_source_watched_nested :
    (Workspace.single "app/src/Api/Pet.php").isDirectory (Path.ofString "app/src") = true ∧
      (Workspace.single "app/src/Api/Pet.php").collect ["vendor"] ["app/src"]
        = .ok [Path.ofString "app/src/Api/Pet.php"] ∧
      changeMatters ["vendor"] (Path.ofString "app/src/Api/Pet.php").text = true := by
  have hd : (Workspace.single "app/src/Api/Pet.php").isDirectory (Path.ofString "app/src")
      = true := by
    decide +kernel
  have hpet : (Workspace.single "app/src/Api/Pet.php").collect ["vendor"] ["app/src"]
      = .ok [Path.ofString "app/src/Api/Pet.php"] := by
    rfl
  obtain ⟨files, hcollect, hwatched⟩ := collected_source_watched _
    (Workspace.WellNamed.empty.write _ _).tree ["vendor"] "app/src" hd
  cases hpet.symm.trans hcollect
  refine ⟨hd, hpet, (hwatched _ List.mem_cons_self).1 ?_ ?_ ?_ ?_⟩ <;> decide +kernel

/-- A scan of a directory collects the only file there is, but no change of its path matters. -/
def CollectedNotWatched (path : String) (exclude : List String) (d : String) : Prop :=
  (Workspace.single path).collect exclude [d] = .ok [Path.ofString path] ∧
    changeMatters exclude (Path.ofString path).text = false

/-- **Not every file that a scan of a directory collects is watched**: not one in a directory whose
    contents never matter, not one with a name that editors use, and not one where a name to exclude
    leads to the directory or is that of the file. -/
theorem collected_source_not_watched :
    CollectedNotWatched "src/.git/hooks/post.php" [] "src" ∧
      CollectedNotWatched "src/flycheck_Pet.php" [] "src" ∧
      CollectedNotWatched "vendor/lib/Pet.php" ["vendor"] "vendor/lib" ∧
      CollectedNotWatched "src/index.php" ["index.php"] "src" := by
  refine ⟨⟨rfl, ?_⟩, ⟨rfl, ?_⟩, ⟨rfl, ?_⟩, ⟨rfl, ?_⟩⟩ <;> decide +kernel

end Marginalia
