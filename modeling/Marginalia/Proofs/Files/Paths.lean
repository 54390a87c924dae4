import Marginalia.Sources

/-!
# Paths and their written form

A path is written with slashes between its components, and read by cutting at them. This module says
that nothing is lost on the way, and which names the components are:

* `IsComponent`: a name that stands between two slashes and is not dropped when a path is read;
* `pieces_text`, `parts_ofString_text`: cutting the written form of a path at its slashes gives back
  the components, whatever stands before the first of them;
* `FileTree.WellNamed`: all names in a tree are such. Writing and removing keep a tree so.
-/

namespace Marginalia

/-! ## 1. Cutting at a character -/

theorem splitAt_eq_splitOn (sep : Char) (s : List Char) : Text.splitAt sep s = s.splitOn sep := by
  induction s with
  | nil => rfl
  | cons c s ih =>
      rw [Text.splitAt, ih, List.splitOn_eq_splitOnP, List.splitOn_eq_splitOnP,
        List.splitOnP_cons_eq_if_modifyHead]
      by_cases hc : c = sep
      · rw [if_pos hc, if_pos (beq_iff_eq.mpr hc)]
      · rw [if_neg hc, if_neg fun h => hc (beq_iff_eq.mp h)]
        cases hs : s.splitOnP (· == sep) with
        | nil => exact absurd hs (List.splitOnP_ne_nil _ _)
        | cons part more => rfl

theorem not_mem_of_splitAt {sep : Char} {s part : List Char} (h : part ∈ Text.splitAt sep s) :
    sep ∉ part := by
  induction s generalizing part with
  | nil =>
      cases List.mem_singleton.mp h
      exact List.not_mem_nil
  | cons c s ih =>
      unfold Text.splitAt at h
      split at h
      · rcases List.mem_cons.mp h with rfl | h
        · exact List.not_mem_nil
        · exact ih h
      · rename_i hc
        split at h
        · cases List.mem_singleton.mp h
          exact fun hm => hc (List.mem_singleton.mp hm).symm
        · rename_i first more hs
          rcases List.mem_cons.mp h with rfl | h
          · intro hm
            rcases List.mem_cons.mp hm with hm | hm
            · exact hc hm.symm
            · exact ih (hs ▸ List.mem_cons_self) hm
          · exact ih (hs ▸ List.mem_cons_of_mem first h)

/-! ## 2. Components -/

/-- **A name that stands between two slashes** and counts when a path is read. -/
structure IsComponent (name : String) : Prop where
  ne_empty : name ≠ ""
  ne_dot : name ≠ "."
  slash_free : '/' ∉ name.toList

theorem isComponent_ofString {s name : String} (h : name ∈ (Path.ofString s).parts) :
    IsComponent name := by
  obtain ⟨hmem, hkept⟩ := List.mem_filter.mp h
  obtain ⟨part, hpart, rfl⟩ := List.mem_map.mp hmem
  simp only [Bool.and_eq_true, bne_iff_ne] at hkept
  refine ⟨hkept.1, hkept.2, ?_⟩
  rw [String.toList_ofList]
  exact not_mem_of_splitAt hpart

/-- A component does not start with a slash. -/
theorem IsComponent.head {name : String} (h : IsComponent name) :
    ∃ c cs, name.toList = c :: cs ∧ c ≠ '/' := by
  cases hn : name.toList with
  | nil => exact absurd (String.toList_inj.mp hn) h.ne_empty
  | cons c cs =>
      refine ⟨c, cs, rfl, fun hc => h.slash_free ?_⟩
      rw [hn, hc]
      exact List.mem_cons_self

/-! ## 3. The written form -/

/-- A path as it comes out of reading: its root is that of a relative or of an absolute path. -/
structure Path.Proper (p : Path) : Prop where
  root : p.root ∈ ["", "/", "//"]
  parts : ∀ name ∈ p.parts, IsComponent name

theorem Path.proper_ofString (s : String) : (Path.ofString s).Proper where
  root := by
    show Path.rootOf s.toList ∈ _
    unfold Path.rootOf
    split <;> decide
  parts _ h := isComponent_ofString h

theorem Path.Proper.append {p : Path} (h : p.Proper) {names : List String}
    (hnames : ∀ name ∈ names, IsComponent name) : (p.append names).Proper where
  root := h.root
  parts name hm := by
    rcases List.mem_append.mp hm with hm | hm
    · exact h.parts name hm
    · exact hnames name hm

/-- Components with slashes between them. -/
def slashed (names : List String) : List Char := ['/'].intercalate (names.map String.toList)

theorem splitAt_slashed {names : List String} (hne : names ≠ [])
    (h : ∀ name ∈ names, IsComponent name) :
    Text.splitAt '/' (slashed names) = names.map String.toList := by
  rw [splitAt_eq_splitOn]
  refine List.splitOn_intercalate '/' (fun part hpart => ?_) (by simpa using hne)
  obtain ⟨name, hname, rfl⟩ := List.mem_map.mp hpart
  exact (h name hname).slash_free

theorem toList_text {p : Path} (hne : p.parts ≠ []) :
    p.text.toList = p.root.toList ++ slashed p.parts := by
  unfold Path.text slashed
  rw [if_neg (by simpa using hne), String.toList_append, String.toList_intercalate]
  rfl

/-- What stands behind the root starts with no slash. -/
theorem dropWhile_slashed {names : List String} (hne : names ≠ [])
    (h : ∀ name ∈ names, IsComponent name) :
    (slashed names).dropWhile (· = '/') = slashed names := by
  obtain ⟨first, more, rfl⟩ := List.exists_cons_of_ne_nil hne
  obtain ⟨c, cs, hfirst, hc⟩ := (h first List.mem_cons_self).head
  have hstart : ∃ rest, slashed (first :: more) = c :: rest := by
    unfold slashed
    rw [List.map_cons, hfirst]
    cases more with
    | nil => exact ⟨cs, by simp⟩
    | cons second more => exact ⟨_, by rw [List.map_cons, List.intercalate_cons_cons]; rfl⟩
  obtain ⟨rest, hrest⟩ := hstart
  rw [hrest, List.dropWhile_cons, if_neg (by simpa using hc)]

/-- **The written form falls into the components** at its slashes, once those in front are gone. -/
theorem pieces_text {p : Path} (hp : p.Proper) (hne : p.parts ≠ []) :
    Text.splitAt '/' (p.text.toList.dropWhile (· = '/')) = p.parts.map String.toList := by
  have hrest := dropWhile_slashed hne hp.parts
  have hdrop : (p.root.toList ++ slashed p.parts).dropWhile (· = '/') = slashed p.parts := by
    have hroot := hp.root
    simp only [List.mem_cons, List.not_mem_nil, or_false] at hroot
    rcases hroot with hr | hr | hr <;> rw [hr] <;> exact hrest
  rw [toList_text hne, hdrop, splitAt_slashed hne hp.parts]

/-- What is kept of components when a path is read, with a slash in front or without. -/
theorem kept_components {cs : List Char} {names : List String}
    (hcs : Text.splitAt '/' cs = names.map String.toList)
    (h : ∀ name ∈ names, IsComponent name) :
    ((Text.splitAt '/' cs).map String.ofList).filter (fun p => p != "" && p != ".") = names := by
  rw [hcs, List.map_map]
  have hid : String.ofList ∘ String.toList = id := funext fun _ => String.ofList_toList
  rw [hid, List.map_id, List.filter_eq_self]
  intro name hname
  have hn := h name hname
  simp only [Bool.and_eq_true, bne_iff_ne]
  exact ⟨hn.ne_empty, hn.ne_dot⟩

/-- **Reading the written form of a path** gives its components back. -/
theorem parts_ofString_text {p : Path} (hp : p.Proper) (hne : p.parts ≠ []) :
    (Path.ofString p.text).parts = p.parts := by
  have hkept := kept_components (splitAt_slashed hne hp.parts) hp.parts
  show ((Text.splitAt '/' p.text.toList).map String.ofList).filter _ = p.parts
  rw [toList_text hne]
  -- each slash of the root is one more empty piece, and those are dropped
  have hroot := hp.root
  simp only [List.mem_cons, List.not_mem_nil, or_false] at hroot
  rcases hroot with hr | hr | hr <;> rw [hr] <;> exact hkept

/-! ## 4. Trees -/

/-- **All names in a tree are components**, so that the way to an entry can be written as a path. -/
def FileTree.WellNamed (t : FileTree) : Prop :=
  ∀ x ∈ t.entries, ∀ name ∈ x.1, IsComponent name

namespace FileTree.WellNamed

theorem empty : FileTree.empty.WellNamed := fun _ h => nomatch h

theorem put {t : FileTree} (h : t.WellNamed) {a : Address} (ha : ∀ name ∈ a, IsComponent name)
    (e : Entry) : (t.put a e).WellNamed := by
  intro x hx
  rcases mem_enter hx with rfl | hx
  · exact ha
  · exact h x hx

theorem makeDirectory {t : FileTree} (h : t.WellNamed) {a : Address}
    (ha : ∀ name ∈ a, IsComponent name) : (t.makeDirectory a).WellNamed := by
  unfold FileTree.makeDirectory
  split
  · exact h
  · exact h.put ha .directory

theorem write {t : FileTree} (h : t.WellNamed) {a : Address} (ha : ∀ name ∈ a, IsComponent name)
    (e : Entry) : (t.write a e).WellNamed := by
  have habove : ∀ (above : List Address) (t : FileTree), t.WellNamed →
      (∀ b ∈ above, ∀ name ∈ b, IsComponent name) →
      (above.foldl FileTree.makeDirectory t).WellNamed := by
    intro above
    induction above with
    | nil => exact fun _ ht _ => ht
    | cons b above ih =>
        intro t ht hb
        refine ih _ (ht.makeDirectory (hb b List.mem_cons_self)) fun c hc => ?_
        exact hb c (List.mem_cons_of_mem b hc)
  refine FileTree.WellNamed.put (habove _ t h fun b hb => ?_) ha e
  obtain ⟨n, -, rfl⟩ := List.mem_map.mp hb
  exact fun name hname => ha name (List.mem_of_mem_take hname)

theorem remove {t : FileTree} (h : t.WellNamed) (a : Address) : (t.remove a).WellNamed :=
  fun x hx => h x (List.mem_filter.mp hx).1

end FileTree.WellNamed

/-- The address that a path is written to goes through components only. -/
theorem isComponent_addressOf {w : Workspace} (hhere : ∀ name ∈ w.here, IsComponent name)
    {p : Path} (hp : p.Proper) : ∀ name ∈ w.addressOf p, IsComponent name := by
  have hsteps : ∀ (parts : List String) (a : Address), (∀ name ∈ parts, IsComponent name) →
      (∀ name ∈ a, IsComponent name) →
      ∀ name ∈ parts.foldl (fun a name => if name = ".." then a.dropLast else a ++ [name]) a,
        IsComponent name := by
    intro parts
    induction parts with
    | nil => exact fun _ _ ha => ha
    | cons part parts ih =>
        intro a hparts ha
        refine ih _ (fun name h => hparts name (List.mem_cons_of_mem part h)) fun name hname => ?_
        dsimp only at hname
        split at hname
        · exact ha name (List.dropLast_subset a hname)
        · rcases List.mem_append.mp hname with hname | hname
          · exact ha name hname
          · cases List.mem_singleton.mp hname
            exact hparts part List.mem_cons_self
  refine hsteps p.parts (w.start p) hp.parts ?_
  unfold Workspace.start
  split
  · exact hhere
  · exact fun _ h => nomatch h

/-- A workspace as it comes about: the names in its tree are components, and so are those that lead
    to where relative paths start. -/
structure Workspace.WellNamed (w : Workspace) : Prop where
  tree : w.tree.WellNamed
  here : ∀ name ∈ w.here, IsComponent name

namespace Workspace.WellNamed

theorem empty : Workspace.empty.WellNamed := ⟨FileTree.WellNamed.empty, fun _ h => nomatch h⟩

theorem write {w : Workspace} (h : w.WellNamed) (s : String) (e : Entry) :
    (w.write (Path.ofString s) e).WellNamed :=
  ⟨h.tree.write (isComponent_addressOf h.here (Path.proper_ofString s)) e, h.here⟩

theorem remove {w : Workspace} (h : w.WellNamed) (s : String) :
    (w.remove (Path.ofString s)).WellNamed :=
  ⟨h.tree.remove _, h.here⟩

end Workspace.WellNamed

end Marginalia
