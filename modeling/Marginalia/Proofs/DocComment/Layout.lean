import Marginalia.Proofs.DocComment.Wrapped

/-!
# Comments in their usual layout

Between the delimiters every line of a comment stands behind the same indentation and a star.
Reading such a comment sees its lines and nothing of the layout:

* `strip_laidOut`: stripping leaves the lines as they were written, whatever stars and blanks they
  start with, and behind them the indentation of the closing delimiter;
* `annotationsFrom_append_blanks`: blanks at the end of a text do not change what is read of it.

Main statement: `layout_makes_no_difference`.
-/

namespace Marginalia.DocComment

/-! ## 1. The layout -/

/-- A comment in the usual layout. -/
def laidOut (indent : List Char) (lines : List (List Char)) : List Char :=
  ['/', '*', '*', '\n'] ++ lines.flatMap (fun line => indent ++ [' ', '*'] ++ line ++ ['\n']) ++
    indent ++ [' ', '*', '/']

/-- The characters that a comment is indented with. -/
def IsIndent (indent : List Char) : Prop := ∀ c ∈ indent, c = ' ' ∨ c = '\t'

instance (indent : List Char) : Decidable (IsIndent indent) :=
  List.decidableBAll (fun c => c = ' ' ∨ c = '\t') indent

/-- What is written on the lines of a comment: nothing ends a line, and none makes an end of the
    comment of the star in front of it. -/
def AreLines (lines : List (List Char)) : Prop :=
  ∀ line ∈ lines, Text.IsLine line ∧ line.head? ≠ some '/'

instance (lines : List (List Char)) : Decidable (AreLines lines) :=
  List.decidableBAll (fun line => Text.IsLine line ∧ line.head? ≠ some '/') lines

theorem IsIndent.isLine {indent : List Char} (h : IsIndent indent) : Text.IsLine indent := by
  intro c hc
  rcases h c hc with rfl | rfl <;> decide

theorem IsIndent.isBlank {indent : List Char} (h : IsIndent indent) :
    ∀ c ∈ indent ++ [' '], Text.isBlank c = true := by
  intro c hc
  rcases List.mem_append.mp hc with hc | hc
  · rcases h c hc with rfl | rfl <;> decide
  · rw [List.mem_singleton.mp hc]
    decide

/-! ## 2. Stripping -/

/-- The lines of the comment, its delimiters apart. -/
theorem lines_laidOut {indent : List Char} (hindent : IsIndent indent) {lines : List (List Char)}
    (hlines : AreLines lines) :
    Text.lines (lines.flatMap (fun line => indent ++ [' ', '*'] ++ line ++ ['\n']) ++
        (indent ++ [' '])) =
      lines.map (indent ++ [' ', '*'] ++ ·) ++ [indent ++ [' ']] := by
  have hfront : ∀ back, Text.IsLine back → Text.IsLine (indent ++ back) := fun back hback =>
    List.forall_mem_append.mpr ⟨hindent.isLine, hback⟩
  induction lines with
  | nil => exact Text.lines_of_isLine (hfront _ (by decide)) (by simp)
  | cons line more ih =>
      obtain ⟨⟨hline, -⟩, hmore⟩ := List.forall_mem_cons.mp hlines
      have hstarred : Text.IsLine (indent ++ [' ', '*'] ++ line) :=
        List.forall_mem_append.mpr ⟨hfront _ (by decide), hline⟩
      rw [List.flatMap_cons, List.append_assoc, List.append_assoc _ ['\n'], List.singleton_append,
        Text.lines_append_end hstarred (by decide) (by decide), ih hmore]
      rfl

/-- A line loses its indentation and its star, and nothing else. -/
theorem stripLine_starred {indent : List Char} (hindent : IsIndent indent) {line : List Char}
    (hslash : line.head? ≠ some '/') : stripLine (indent ++ [' ', '*'] ++ line) = line := by
  have hline : indent ++ [' ', '*'] ++ line = indent ++ [' '] ++ '*' :: line := by simp
  rw [hline]
  exact stripLine_of_star (blanks_front hindent.isBlank (c := '*') (by decide) line).1 hslash

/-- A line of blanks stays. -/
theorem stripLine_blank {u : List Char} (h : ∀ c ∈ u, Text.isBlank c = true) : stripLine u = u := by
  refine stripLine_of_ne_star u fun rest hrest => ?_
  rw [Text.trimLeft, Text.dropLeft, List.dropWhile_eq_nil_iff.mpr h] at hrest
  cases hrest

theorem joinLines_append_last (lines : List (List Char)) (last : List Char) :
    Text.joinLines (lines ++ [last]) = lines.flatMap (· ++ ['\n']) ++ last := by
  induction lines with
  | nil => rfl
  | cons line more ih =>
      rw [List.cons_append, Text.joinLines_cons _ (by simp), ih, List.flatMap_cons]
      simp

/-- **Stripping undoes the layout.** What is left is an empty line, the lines as they were written,
    and the indentation of the closing delimiter. -/
theorem strip_laidOut {indent : List Char} (hindent : IsIndent indent) {lines : List (List Char)}
    (hlines : AreLines lines) :
    strip (laidOut indent lines) =
      '\n' :: lines.flatMap (· ++ ['\n']) ++ (indent ++ [' ']) := by
  have hcomment : laidOut indent lines = '/' :: '*' :: '*' ::
      ('\n' :: (lines.flatMap (fun line => indent ++ [' ', '*'] ++ line ++ ['\n']) ++
        (indent ++ [' '])) ++ ['*', '/']) := by
    simp [laidOut]
  have hlast : stripLine (indent ++ [' ']) = indent ++ [' '] := stripLine_blank hindent.isBlank
  have hstripped : (lines.map (indent ++ [' ', '*'] ++ ·)).map stripLine = lines := by
    rw [List.map_map]
    exact (List.map_congr_left fun line hline =>
      stripLine_starred hindent (hlines line hline).2).trans (List.map_id' lines)
  rw [strip, hcomment, body_of_delimited, ← List.nil_append ('\n' :: _),
    Text.lines_append_end (List.forall_mem_nil _) (by decide) (by decide),
    lines_laidOut hindent hlines, List.map_cons, List.map_append, hstripped, List.map_singleton,
    hlast, Text.joinLines_cons _ (by simp), joinLines_append_last]
  rfl

/-! ## 3. Blanks at the end of a text -/

/-- A blank is none of the characters that an annotation is found by. -/
theorem ne_of_isBlank {c : Char} (h : Text.isBlank c = true) :
    ∀ d ∈ ['"', '(', ')', '@'], c ≠ d := by
  have hblank : ∀ d ∈ ['"', '(', ')', '@'], Text.isBlank d = false :=
    List.all_iff_forall_prop.mp (by decide)
  rintro d hd rfl
  exact Bool.noConfusion (h.symm.trans (hblank c hd))

section

variable {blanks : List Char} (hblanks : ∀ c ∈ blanks, Text.isBlank c = true)
include hblanks

/-- Blanks close nothing. -/
theorem throughClosing?_blanks (depth : Nat) (inString : Bool) :
    throughClosing? depth inString blanks = none := by
  induction blanks with
  | nil => rfl
  | cons c blanks ih =>
      obtain ⟨hc, hmore⟩ := List.forall_mem_cons.mp hblanks
      have hne := ne_of_isBlank hc
      rw [throughClosing?_cons, if_neg (hne '"' (by decide)), if_neg (hne '(' (by decide)),
        if_neg (hne ')' (by decide))]
      cases inString <;> simp [ih hmore]

theorem throughClosing?_append_blanks (depth : Nat) (inString : Bool) (text : List Char) :
    throughClosing? depth inString (text ++ blanks) = throughClosing? depth inString text := by
  induction text generalizing depth inString with
  | nil => exact throughClosing?_blanks hblanks depth inString
  | cons c text ih =>
      rw [List.cons_append, throughClosing?_cons, throughClosing?_cons]
      simp only [ih]

theorem plainName?_append_blanks (text : List Char) :
    plainName? (text ++ blanks) = plainName? text := by
  cases blanks with
  | nil => rw [List.append_nil]
  | cons c blanks =>
      have hspares := plainName_spares_blank (hblanks c List.mem_cons_self)
      exact finds_plainName_iff.mp ((plainName?_finds text).before hspares blanks)

theorem argumentList_append_blanks (name : String) (text : List Char) :
    argumentList name (text ++ blanks) = argumentList name text := by
  have hsplit : text.takeWhile Text.isBlank ++ Text.trimLeft text = text :=
    List.takeWhile_append_dropWhile
  cases htrim : Text.trimLeft text with
  | nil =>
      -- The text is all blanks, so there is no argument list either way.
      rw [htrim, List.append_nil] at hsplit
      have hall : ∀ c ∈ text ++ blanks, Text.isBlank c = true := by
        refine List.forall_mem_append.mpr ⟨fun c hc => ?_, hblanks⟩
        rw [← hsplit] at hc
        exact List.mem_takeWhile_imp hc
      have hnone : Text.trimLeft (text ++ blanks) = [] := List.dropWhile_eq_nil_iff.mpr hall
      rw [argumentList_of_head (by rw [hnone]; exact nofun),
        argumentList_of_head (by rw [htrim]; exact nofun)]
  | cons c rest =>
      have hdrop : text.dropWhile Text.isBlank = c :: rest := htrim
      have hc : ¬Text.isBlank c = true := by
        have hhead := List.head?_dropWhile_not Text.isBlank text
        rw [hdrop] at hhead
        simpa using hhead
      have hfront : ∀ c ∈ text.takeWhile Text.isBlank, Text.isBlank c = true := fun c =>
        List.mem_takeWhile_imp
      have htext : text ++ blanks = text.takeWhile Text.isBlank ++ c :: (rest ++ blanks) := by
        conv_lhs => rw [← hsplit, htrim]
        simp
      obtain ⟨htrim', htake⟩ := blanks_front hfront hc (rest ++ blanks)
      rw [← htext] at htrim' htake
      by_cases hopening : c = '('
      · subst hopening
        rw [argumentList, argumentList, htrim, htrim', htake]
        simp only [throughClosing?_append_blanks hblanks]
      · rw [argumentList_of_head (by rw [htrim']; simpa using hopening),
          argumentList_of_head (by rw [htrim]; simpa using hopening)]

theorem annotationAt_append_blanks (aliases : Aliases) (before : Option Char) (c : Char)
    (rest : List Char) :
    annotationAt aliases before (c :: (rest ++ blanks)) =
      annotationAt aliases before (c :: rest) := by
  by_cases hc : c = '@'
  · subst hc
    have hname := plainName?_append_blanks hblanks rest
    simp only [annotationAt, hname]
    split
    · rfl
    · rename_i name hsome
      have hle : name.length ≤ rest.length := by
        have hfinds := plainName?_finds rest
        split at hsome
        · rw [hsome] at hfinds
          exact hfinds.2.1.length_le
        · cases hsome
      rw [List.drop_append_of_le_length hle, argumentList_append_blanks hblanks]
  · rw [annotationAt_prose fun h => absurd h hc, annotationAt_prose fun h => absurd h hc]

/-- Nothing is read of blanks. -/
theorem annotationsFrom_blanks (aliases : Aliases) (inside : Nat) (before : Option Char) :
    annotationsFrom aliases inside before blanks = .ok [] := by
  induction blanks generalizing inside before with
  | nil => rfl
  | cons c blanks ih =>
      obtain ⟨hc, hmore⟩ := List.forall_mem_cons.mp hblanks
      cases inside with
      | succ more => exact ih hmore more (some c)
      | zero =>
          have hsign : c ≠ '@' := ne_of_isBlank hc '@' (by decide)
          rw [annotationsFrom, annotationAt_prose fun h => absurd h hsign]
          exact ih hmore 0 (some c)

/-- **Blanks at the end of a text do not change what is read of it.** -/
theorem annotationsFrom_append_blanks (aliases : Aliases) (inside : Nat) (before : Option Char)
    (text : List Char) :
    annotationsFrom aliases inside before (text ++ blanks) =
      annotationsFrom aliases inside before text := by
  induction text generalizing inside before with
  | nil => exact annotationsFrom_blanks hblanks aliases inside before
  | cons c rest ih =>
      rw [List.cons_append]
      cases inside with
      | succ more => exact ih more (some c)
      | zero =>
          rw [annotationsFrom, annotationsFrom, annotationAt_append_blanks hblanks]
          simp only [ih]

end

/-! ## 4. The main statement -/

/-- **The layout of a comment makes no difference.** The lines of a comment stand behind an
    indentation of spaces and tabs, a blank and a star. Nothing ends a line inside of it, and no
    line starts with a slash. Then stripping the comment leaves an empty line, the lines as they
    were written, and the indentation of the closing delimiter with its blank. So with any other
    indentation the comment comes to the same annotations, or to the same fault. -/
theorem layout_makes_no_difference {lines : List (List Char)} (hlines : AreLines lines)
    {indent : List Char} (hindent : IsIndent indent) :
    strip (laidOut indent lines) = '\n' :: lines.flatMap (· ++ ['\n']) ++ (indent ++ [' ']) ∧
      ∀ other, IsIndent other → ∀ aliases : Aliases,
        parse (String.ofList (laidOut other lines)) aliases =
          parse (String.ofList (laidOut indent lines)) aliases := by
  have hparse : ∀ other, IsIndent other → ∀ aliases : Aliases,
      parse (String.ofList (laidOut other lines)) aliases =
        annotationsFrom aliases 0 none ('\n' :: lines.flatMap (· ++ ['\n'])) := by
    intro other hother aliases
    rw [parse, String.toList_ofList, strip_laidOut hother hlines]
    exact annotationsFrom_append_blanks hother.isBlank aliases 0 none _
  refine ⟨strip_laidOut hindent hlines, fun other hother aliases => ?_⟩
  rw [hparse other hother, hparse indent hindent]

/-- Lines that start with stars and blanks, an empty one, and one that ends like a comment. -/
def starredLines : List (List Char) :=
  ["* @SWG\\Model(id=\"a\",".toList, [], "   description=\"b\") */".toList]

theorem layout_makes_no_difference_to_starredLines :
    AreLines starredLines ∧ IsIndent ['\t'] ∧ IsIndent [] ∧
      strip (laidOut ['\t'] starredLines) =
        "\n* @SWG\\Model(id=\"a\",\n\n   description=\"b\") */\n\t ".toList ∧
      parse (String.ofList (laidOut [] starredLines)) Imports.builtin.entries =
        parse (String.ofList (laidOut ['\t'] starredLines)) Imports.builtin.entries := by
  have hlines : AreLines starredLines := by decide +kernel
  have hindent : IsIndent ['\t'] := by decide
  obtain ⟨hstrip, hparse⟩ := layout_makes_no_difference hlines hindent
  refine ⟨hlines, hindent, by decide, hstrip.trans (by decide +kernel), ?_⟩
  exact hparse [] (by decide) Imports.builtin.entries

end Marginalia.DocComment
