import Marginalia.Proofs.DocComment.Passages
import Marginalia.Proofs.Expression.RoundTrip
import Marginalia.Proofs.Note.Gathering

/-!
# A string in a comment of one line

The delimiters and the stars of a comment are removed before its strings are looked at, line by
line. In a comment that is written on one line a string can still hold characters that end a line,
so it does not always come through:

* `asRead`: a text as it stands in the stripped comment. Line feeds take the place of its line ends,
  and behind each of them a star is removed with the blanks in front of it;
* `strip_quoted`: stripping turns the quoted text into what is read of it, quoted;
* `Note.sentence`, `parse_of_strip`: an annotation as it is printed is a sentence, and a comment
  that holds it and nothing else comes to it.

Main statement: `parse_describing`. The description of a model in a comment of one line is `asRead`
of what was written, and this is the text itself exactly if the text holds no line end at all.
-/

namespace Marginalia

open Expression

/-! ## 1. Lines -/

namespace Text

/-- No line ends in the text. -/
def IsLine (u : List Char) : Prop := ∀ c ∈ u, isLineEnd c = false

instance (u : List Char) : Decidable (IsLine u) :=
  List.decidableBAll (fun c => isLineEnd c = false) u

/-- Every text is a line, or a line with a line end behind it and a further text behind that. -/
theorem lineInduction {motive : List Char → Prop} (line : ∀ u, IsLine u → motive u)
    (more : ∀ u c rest, IsLine u → isLineEnd c = true → motive rest → motive (u ++ c :: rest)) :
    ∀ s, motive s := by
  intro s
  induction hn : s.length using Nat.strongRecOn generalizing s with
  | ind n ih =>
      have hsplit := List.takeWhile_append_dropWhile (p := fun c => !isLineEnd c) (l := s)
      have hfront : IsLine (s.takeWhile fun c => !isLineEnd c) := by
        intro c hc
        simpa using List.mem_takeWhile_imp hc
      cases hback : s.dropWhile fun c => !isLineEnd c with
      | nil =>
          rw [hback, List.append_nil] at hsplit
          rw [← hsplit]
          exact line _ hfront
      | cons c rest =>
          have hc : isLineEnd c = true := by
            have hhead := List.head?_dropWhile_not (fun c => !isLineEnd c) s
            rw [hback] at hhead
            simpa using hhead
          have hshort : rest.length < n := by
            have hle := List.length_dropWhile_le (fun c => !isLineEnd c) s
            rw [hback, List.length_cons] at hle
            omega
          rw [hback] at hsplit
          rw [← hsplit]
          exact more _ c rest hfront hc (ih _ hshort rest rfl)

/-- A line feed is kept apart from a carriage return in front of it. -/
theorem lines_cons {c : Char} (h : c ≠ '\r') (rest : List Char) :
    lines (c :: rest) = if isLineEnd c then [] :: lines rest else match lines rest with
      | [] => [[c]]
      | line :: more => (c :: line) :: more := by
  rw [lines.eq_def]
  split
  · rename_i heq
    cases heq
  · rename_i heq
    exact absurd (List.cons.inj heq).1 h
  · rename_i heq
    obtain ⟨rfl, rfl⟩ := List.cons.inj heq
    rfl

theorem IsLine.ne_return {u : List Char} (h : IsLine u) : ∀ c ∈ u, c ≠ '\r' := by
  rintro c hc rfl
  exact absurd (h _ hc) (by decide)

theorem lines_of_isLine {u : List Char} (h : IsLine u) (hne : u ≠ []) : lines u = [u] := by
  induction u with
  | nil => exact absurd rfl hne
  | cons c u ih =>
      obtain ⟨hc, hu⟩ := List.forall_mem_cons.mp h
      rw [lines_cons (h.ne_return c List.mem_cons_self), hc]
      cases u with
      | nil => rfl
      | cons d u => rw [ih hu (List.cons_ne_nil d u)]; rfl

/-- What stands in front of a text stands in front of its first line. -/
theorem lines_front {front s line : List Char} {more : List (List Char)} (h : IsLine front)
    (hs : lines s = line :: more) : lines (front ++ s) = (front ++ line) :: more := by
  induction front with
  | nil => exact hs
  | cons c front ih =>
      obtain ⟨hc, hmore⟩ := List.forall_mem_cons.mp h
      rw [List.cons_append, lines_cons (h.ne_return c List.mem_cons_self), hc, ih hmore]
      rfl

/-- A line with its end is the first line. -/
theorem lines_append_end {u : List Char} (h : IsLine u) {c : Char} (hc : isLineEnd c = true)
    (hreturn : c ≠ '\r') (rest : List Char) : lines (u ++ c :: rest) = u :: lines rest := by
  have hend : lines (c :: rest) = [] :: lines rest := by
    rw [lines_cons hreturn, hc]
    rfl
  rw [lines_front h hend, List.append_nil]

theorem joinLines_cons (line : List Char) {more : List (List Char)} (h : more ≠ []) :
    joinLines (line :: more) = line ++ '\n' :: joinLines more := by
  cases more with
  | nil => exact absurd rfl h
  | cons next more => rfl

end Text

/-! ## 2. What is read of a text -/

namespace DocComment

/-- What is read of the lines of a text: all but the first lose the star in front of them. -/
def readLines : List (List Char) → List Char
  | [] => []
  | first :: more => Text.joinLines (first :: more.map stripLine)

/-- **What is read of a text** that stands in a comment. -/
def asRead (s : List Char) : List Char := readLines (s.splitOnP Text.isLineEnd)

/-- Without a line end a text is read as it is. -/
theorem asRead_of_isLine {s : List Char} (h : Text.IsLine s) : asRead s = s := by
  rw [asRead, List.splitOnP_eq_singleton h]
  rfl

/-- At a line end a line feed is read. -/
theorem feed_mem_asRead {s : List Char} (h : ¬Text.IsLine s) : '\n' ∈ asRead s := by
  induction s using Text.lineInduction with
  | line u hu => exact absurd hu h
  | more u c rest hu hc _ =>
      have hne : (rest.splitOnP Text.isLineEnd).map stripLine ≠ [] :=
        fun h => List.splitOnP_ne_nil _ rest (List.map_eq_nil_iff.mp h)
      rw [asRead, List.splitOnP_append_cons_of_forall_mem hu c hc, readLines,
        Text.joinLines_cons _ hne]
      exact List.mem_append_right _ List.mem_cons_self

/-- **A text comes through exactly if no line ends in it**, given that it holds no line feed. -/
theorem asRead_eq_self_iff {s : List Char} (hfeed : '\n' ∉ s) : asRead s = s ↔ Text.IsLine s := by
  refine ⟨fun h => ?_, asRead_of_isLine⟩
  by_contra hends
  exact hfeed (h ▸ feed_mem_asRead hends)

/-! ## 3. Stripping a quoted text -/

theorem double_append (u v : List Char) : double (u ++ v) = double u ++ double v := by
  induction u with
  | nil => rfl
  | cons c u ih =>
      rw [List.cons_append, double, double, ih]
      split <;> rfl

theorem double_cons {c : Char} (h : c ≠ '"') (s : List Char) : double (c :: s) = c :: double s :=
  if_neg h

theorem ne_quote_of_isLineEnd {c : Char} (h : Text.isLineEnd c = true) : c ≠ '"' := by
  rintro rfl
  exact absurd h (by decide)

theorem isLine_double {u : List Char} (h : Text.IsLine u) : Text.IsLine (double u) := by
  induction u with
  | nil => exact nofun
  | cons c u ih =>
      obtain ⟨hc, hu⟩ := List.forall_mem_cons.mp h
      unfold double
      split
      · rename_i hquote
        subst hquote
        exact List.forall_mem_cons.mpr ⟨hc, List.forall_mem_cons.mpr ⟨hc, ih hu⟩⟩
      · exact List.forall_mem_cons.mpr ⟨hc, ih hu⟩

/-- A line without a star in front stays, and so does one whose star a slash follows. -/
theorem stripLine_of_ne_star (line : List Char)
    (h : ∀ rest, Text.trimLeft line = '*' :: rest → rest.head? = some '/') :
    stripLine line = line := by
  unfold stripLine
  split
  · rfl
  · rename_i rest hslash hstar
    obtain ⟨more, rfl⟩ := List.head?_eq_some_iff.mp (h rest hstar)
    exact absurd rfl (hslash more)
  · rfl

theorem stripLine_of_star {line rest : List Char} (h : Text.trimLeft line = '*' :: rest)
    (hslash : rest.head? ≠ some '/') : stripLine line = rest := by
  unfold stripLine
  split
  · rename_i more hmore
    rw [h] at hmore
    obtain rfl := (List.cons.inj hmore).2
    exact absurd rfl hslash
  · rename_i more _ hmore
    rw [h] at hmore
    exact (List.cons.inj hmore).2.symm
  · rename_i _ hne
    exact absurd h (hne rest)

/-- The blanks in front of a quoted text are those of the text. -/
theorem trimLeft_double_append (u back : List Char) :
    Text.trimLeft (double u ++ back) =
      if Text.trimLeft u = [] then Text.trimLeft back else double (Text.trimLeft u) ++ back := by
  unfold Text.trimLeft Text.dropLeft
  induction u with
  | nil => rfl
  | cons c u ih =>
      have hquote : Text.isBlank '"' = false := by decide
      cases hc : Text.isBlank c with
      | true =>
          have hne : c ≠ '"' := by
            rintro rfl
            rw [hquote] at hc
            cases hc
          rw [double_cons hne, List.cons_append, List.dropWhile_cons_of_pos hc,
            List.dropWhile_cons_of_pos hc, ih]
      | false =>
          rw [List.dropWhile_cons_of_neg (by simp [hc])]
          by_cases hne : c = '"'
          · subst hne
            simp [double, hquote]
          · simp [double_cons hne, hc]

/-- **Stripping a line does not look at its quotes**, nor at what stands behind it if this is
    nothing or a quote. -/
theorem stripLine_double_append (u : List Char) {back : List Char}
    (hback : back = [] ∨ back.head? = some '"') :
    stripLine (double u ++ back) = double (stripLine u) ++ back := by
  have htrim := trimLeft_double_append u back
  cases hu : Text.trimLeft u with
  | nil =>
      rw [hu, if_pos rfl] at htrim
      rw [stripLine_of_ne_star u (by simp [hu]), stripLine_of_ne_star]
      intro rest hrest
      rw [htrim] at hrest
      rcases hback with rfl | hhead
      · cases hrest
      · obtain ⟨more, rfl⟩ := List.head?_eq_some_iff.mp hhead
        cases hrest
  | cons c r =>
      rw [hu, if_neg (List.cons_ne_nil c r)] at htrim
      by_cases hstar : c = '*'
      · subst hstar
        rw [double_cons (by decide), List.cons_append] at htrim
        -- behind the star the quotes are doubled, so a slash there is one of the text
        have hslash : (double r ++ back).head? = some '/' ↔ r.head? = some '/' := by
          cases r with
          | nil =>
              rcases hback with rfl | hhead
              · simp [double]
              · simp [double, hhead]
          | cons d r =>
              unfold double
              split <;> simp_all
        by_cases hr : r.head? = some '/'
        · rw [stripLine_of_ne_star u (by simp_all), stripLine_of_ne_star _ (by simp_all)]
        · rw [stripLine_of_star hu hr, stripLine_of_star htrim (fun h => hr (hslash.mp h))]
      · have hne : ∀ rest, double (c :: r) ++ back ≠ '*' :: rest := by
          intro rest hrest
          unfold double at hrest
          split at hrest
          · cases hrest
          · exact hstar (List.cons.inj hrest).1
        rw [stripLine_of_ne_star u (by simp [hu, hstar]), stripLine_of_ne_star]
        intro rest hrest
        exact absurd (htrim.symm.trans hrest) (hne rest)

/-- The lines of a quoted text are its own lines, quoted, what stands behind it being in the last
    one. -/
theorem lines_quoted {s : List Char} (hreturn : '\r' ∉ s) {back : List Char} (hne : back ≠ [])
    (hback : Text.IsLine back) :
    ∃ init last, s.splitOnP Text.isLineEnd = init ++ [last] ∧
      Text.lines (double s ++ back) = init.map double ++ [double last ++ back] := by
  induction s using Text.lineInduction with
  | line u hu =>
      have hwhole : Text.IsLine (double u ++ back) :=
        List.forall_mem_append.mpr ⟨isLine_double hu, hback⟩
      have hsome : double u ++ back ≠ [] := fun h => hne (List.append_eq_nil_iff.mp h).2
      exact ⟨[], u, List.splitOnP_eq_singleton hu, Text.lines_of_isLine hwhole hsome⟩
  | more u c rest hu hc ih =>
      obtain ⟨init, last, hpieces, hlines⟩ := ih fun h =>
        hreturn (List.mem_append_right _ (List.mem_cons_of_mem c h))
      have hc' : c ≠ '\r' := by
        rintro rfl
        exact hreturn (List.mem_append_right _ List.mem_cons_self)
      refine ⟨u :: init, last, ?_, ?_⟩
      · rw [List.splitOnP_append_cons_of_forall_mem hu c hc, hpieces]
        rfl
      · rw [double_append, double_cons (ne_quote_of_isLineEnd hc), List.append_assoc,
          List.cons_append, Text.lines_append_end (isLine_double hu) hc hc', hlines]
        rfl

/-- Quoted lines are joined as the lines are. -/
theorem joinLines_quoted (init : List (List Char)) (last back : List Char) :
    Text.joinLines (init.map double ++ [double last ++ back]) =
      double (Text.joinLines (init ++ [last])) ++ back := by
  induction init with
  | nil => rfl
  | cons line init ih =>
      rw [List.map_cons, List.cons_append, List.cons_append, Text.joinLines_cons _ (by simp),
        Text.joinLines_cons _ (by simp), ih, double_append, double_cons (by decide)]
      simp

/-- **Stripping turns a quoted text into what is read of it.** In front of it stands something that
    is not the star of a line. -/
theorem strip_quoted {s : List Char} (hreturn : '\r' ∉ s) {front : List Char}
    (hfront : Text.IsLine front) (hkept : ∀ v, stripLine (front ++ v) = front ++ v)
    {back : List Char} (hquote : back.head? = some '"') (hback : Text.IsLine back) :
    Text.joinLines ((Text.lines (front ++ (double s ++ back))).map stripLine) =
      front ++ (double (asRead s) ++ back) := by
  have hne : back ≠ [] := by
    rintro rfl
    cases hquote
  obtain ⟨init, last, hpieces, hlines⟩ := lines_quoted hreturn hne hback
  cases init with
  | nil =>
      rw [Text.lines_front hfront hlines, asRead, hpieces]
      exact hkept _
  | cons first init =>
      have hmore : (init.map double ++ [double last ++ back]).map stripLine =
          (init.map stripLine).map double ++ [double (stripLine last) ++ back] := by
        rw [List.map_append, List.map_map, List.map_map, List.map_singleton,
          stripLine_double_append last (.inr hquote)]
        congr 1
        refine List.map_congr_left fun u _ => ?_
        have hstrip := stripLine_double_append u (.inl rfl)
        rwa [List.append_nil, List.append_nil] at hstrip
      have hread : asRead s =
          first ++ '\n' :: Text.joinLines (init.map stripLine ++ [stripLine last]) := by
        rw [asRead, hpieces, List.cons_append, readLines, Text.joinLines_cons _ (by simp)]
        simp
      rw [Text.lines_front hfront (hlines.trans (List.cons_append ..)), List.map_cons, hkept, hmore,
        Text.joinLines_cons _ (by simp), joinLines_quoted, hread, double_append,
        double_cons (by decide)]
      simp

end DocComment

/-! ## 4. Comments that hold one annotation -/

open DocComment

theorem spell_append (us vs : List Word) : spell (us ++ vs) = spell us ++ spell vs :=
  List.flatMap_append

/-- What an annotation is printed as: its name behind the at sign, and an argument list. -/
theorem Note.render_eq (a : Note) :
    ∃ inside, a.render = '@' :: (a.kind.written.toList ++ inside ++ [')']) := by
  have hname : spell [Word.at, ⟨.name, a.kind.written⟩] = '@' :: a.kind.written.toList := by
    simp [spell, Word.at, Word.comma]
  obtain ⟨inside, hwords⟩ : ∃ inside, a.expression.words =
      [Word.at, ⟨.name, a.kind.written⟩] ++ inside ++ [Enclosure.arguments.closing] := by
    obtain ⟨k, id, refs, slots⟩ := a
    rw [Note.expression]
    generalize (idItems id ++ _ : List (Derivation (.item .arguments))) = items
    cases items with
    | nil => exact ⟨[Enclosure.arguments.opening], rfl⟩
    | cons item more => exact ⟨Enclosure.arguments.opening :: (Derivation.row item more).words, rfl⟩
  refine ⟨spell inside, ?_⟩
  rw [Note.render, Derivation.text, hwords, spell_append, spell_append, hname]
  rfl

theorem Note.head_expression (a : Note) :
    a.expression.head = a.kind.written ∧ a.expression.isBare = false := by
  obtain ⟨k, id, refs, slots⟩ := a
  rw [Note.expression]
  exact ⟨rfl, rfl⟩

/-- **An annotation as it is printed is a sentence.** -/
def Note.sentence (a : Note) : Sentence Imports.builtin.entries where
  text := a.render
  derivation := a.expression
  tokenised := (spelled_spell a.spellable_expression).tokenised
  opens := by
    obtain ⟨inside, hrender⟩ := a.render_eq
    refine ⟨inside ++ [')'], ?_⟩
    rw [hrender, a.head_expression.1, List.append_assoc]
  plain := by
    rw [a.head_expression.1]
    cases a.kind <;> decide
  ends := by
    obtain ⟨inside, hrender⟩ := a.render_eq
    intro c hc
    rw [hrender, ← List.cons_append, List.getLast?_concat] at hc
    cases hc
    rfl
  known := ⟨a.kind, by rw [a.head_expression.1, kindOf_written]⟩

/-- The annotation with a blank behind it. -/
def Note.passage (a : Note) : Passage Imports.builtin.entries where
  sentence := a.sentence
  prose := [' ']
  isProse := prose_cons_iff.mpr ⟨nofun, prose_nil _ _⟩
  endsBefore := fun hbare => absurd (a.head_expression.2.symm.trans hbare) Bool.false_ne_true

/-- **A comment that holds an annotation as it is printed, and else nothing, comes to it.** -/
theorem parse_of_strip {comment : String} {a : Note} (h : a.Typed .readable)
    (hstrip : strip comment.toList = ' ' :: (a.render ++ [' '])) :
    DocComment.parse comment Imports.builtin.entries = .ok [a] := by
  have hblank : EndsBlank [' '] := ⟨[], ' ', rfl, by decide⟩
  have hfront : Prose Imports.builtin.entries none [' '] :=
    prose_cons_iff.mpr ⟨nofun, prose_nil _ _⟩
  have hpassage : a.render ++ [' '] = [a.passage].flatMap Passage.text := by
    rw [List.flatMap_singleton]
    rfl
  have hvalues : (DocComment.parse comment Imports.builtin.entries).map (·.map Value.note) =
      .ok [.note a] := by
    rw [DocComment.parse, hstrip, hpassage, ← List.singleton_append,
      annotationsFrom_prose hfront (.inr (.inr hblank)),
      annotationsFrom_passages [a.passage] (List.forall_mem_nil _) fun _ => hblank.mayStart none,
      List.mapM_cons]
    show (evaluate Imports.builtin.entries a.render >>= _) = _
    rw [evaluate, parse_render]
    dsimp only
    rw [← Derivation.meaning, ← Value.expression, h.readsBack.1.eval_eq]
    rfl
  obtain ⟨notes, hnotes, hmap⟩ := exists_of_map_ok hvalues
  have hsame : notes = [a] := by
    refine List.map_injective_iff.mpr (fun _ _ h => Value.note.inj h) ?_
    exact hmap
  rw [hnotes, hsame]

/-! ## 5. The main statement -/

/-- A model that says nothing but its description. -/
def describedModel (description : String) : Note :=
  ⟨.model, none, [], [(.id, .null), (.description, .text description), (.subTypes, .null),
    (.discriminator, .null), (.properties, .list []), (.declaringClass, .null),
    (.parentClass, .null)]⟩

/-- A comment of one line with a model that has a description. -/
def describing (s : String) : String := "/** @SWG\\Model(description=" ++ quote s ++ ") */"

theorem typed_describedModel (s : String) : (describedModel s).Typed .readable := by
  refine .child rfl ?_ ?_ nofun
  · simp [describedModel, Field.alwaysList]
  · simp only [describedModel, List.forall_mem_cons]
    exact ⟨fun h => absurd rfl h, fun _ => .text _, fun h => absurd rfl h, fun h => absurd rfl h,
      fun _ => .list nofun, fun h => absurd rfl h, fun h => absurd rfl h, nofun⟩

/-- The text in front of the string. -/
def beforeString : List Char := "@SWG\\Model(description=\"".toList

theorem toList_quote (s : String) : (quote s).toList = '"' :: (double s.toList ++ ['"']) :=
  String.toList_ofList

/-- The text of a word, with the blank behind a comma. -/
theorem spell_cons (w : Word) (words : List Word) :
    spell (w :: words) = (if w = .comma then [',', ' '] else w.text.toList) ++ spell words := rfl

theorem render_describedModel (s : String) :
    (describedModel s).render = beforeString ++ (double s.toList ++ ['"', ')']) := by
  have hwords : (describedModel s).expression.words = [Word.at, ⟨.name, "SWG\\Model"⟩,
      Enclosure.arguments.opening, ⟨.name, "description"⟩, Word.equal] ++ [⟨.string, quote s⟩,
      Enclosure.arguments.closing] := rfl
  have hfront : spell [Word.at, ⟨.name, "SWG\\Model"⟩, Enclosure.arguments.opening,
      ⟨.name, "description"⟩, Word.equal] ++ ['"'] = beforeString := by decide +kernel
  have hback : spell [⟨.string, quote s⟩, Enclosure.arguments.closing] =
      '"' :: (double s.toList ++ ['"', ')']) := by
    rw [spell_cons, if_neg (by simp [Word.comma]), toList_quote]
    show '"' :: (double s.toList ++ ['"']) ++ [')'] = _
    simp
  rw [Note.render, Derivation.text, hwords, spell_append, hback, ← hfront]
  simp

/-- A text without blanks at its ends is trimmed already. -/
theorem trim_eq_self {c d : Char} (hc : Text.isBlank c = false) (hd : Text.isBlank d = false)
    (inner : List Char) : Text.trim (c :: (inner ++ [d])) = c :: (inner ++ [d]) := by
  unfold Text.trim Text.trimRight Text.dropRight Text.trimLeft Text.dropLeft
  rw [List.dropWhile_cons_of_neg (by simp [hc]), ← List.cons_append, List.reverse_append,
    List.reverse_singleton, List.singleton_append, List.dropWhile_cons_of_neg (by simp [hd])]
  simp

/-- The delimiters of a comment are removed from its ends. -/
theorem body_of_delimited (body : List Char) :
    dropClosing (dropOpening (Text.trim ('/' :: '*' :: '*' :: (body ++ ['*', '/'])))) = body := by
  have htrim := trim_eq_self (c := '/') (d := '/') (by decide) (by decide)
    ('*' :: '*' :: (body ++ ['*']))
  have hcomment : '/' :: '*' :: '*' :: (body ++ ['*', '/']) =
      '/' :: ('*' :: '*' :: (body ++ ['*']) ++ ['/']) := by simp
  rw [hcomment, htrim]
  simp [dropOpening, dropClosing]

/-- The comment, its delimiters apart. -/
theorem toList_describing (s : String) : (describing s).toList =
    '/' :: '*' :: '*' :: (' ' :: beforeString ++ (double s.toList ++ ['"', ')', ' ']) ++
      ['*', '/']) := by
  have hopening : "/** @SWG\\Model(description=".toList ++ ['"'] =
      '/' :: '*' :: '*' :: ' ' :: beforeString := by decide +kernel
  have hclosing : ") */".toList = [')', ' ', '*', '/'] := by decide +kernel
  have happend : (describing s).toList =
      "/** @SWG\\Model(description=".toList ++ (quote s).toList ++ ") */".toList :=
    String.toList_append.trans (congrArg (· ++ ") */".toList) String.toList_append)
  generalize "/** @SWG\\Model(description=".toList = opening at hopening happend
  have hquote : opening ++ '"' :: (double s.toList ++ ['"']) =
      (opening ++ ['"']) ++ (double s.toList ++ ['"']) := by simp
  rw [happend, toList_quote, hclosing, hquote, hopening]
  simp

/-- **Stripping the comment leaves a model with what is read of the text.** -/
theorem strip_describing {s : String} (hreturn : '\r' ∉ s.toList) :
    strip (describing s).toList =
      ' ' :: ((describedModel (String.ofList (asRead s.toList))).render ++ [' ']) := by
  have hkept : ∀ v, stripLine (' ' :: beforeString ++ v) = ' ' :: beforeString ++ v := by
    intro v
    refine stripLine_of_ne_star _ fun rest hrest => ?_
    cases hrest
  have hline : Text.IsLine (' ' :: beforeString) := by decide +kernel
  have hquote : ['"', ')', ' '].head? = some '"' := rfl
  have hstrip := strip_quoted hreturn hline hkept hquote (by decide)
  rw [strip, toList_describing, body_of_delimited, hstrip, render_describedModel,
    String.toList_ofList]
  simp

/-- **A string in a comment of one line.** The description of a model stands in a comment of one
    line: it is quoted, and holds neither a line feed nor a carriage return. Then the comment comes
    to one model with a description, and this is what is read of the text: at the characters that
    end a line all the same, a line feed takes their place, and a star behind them is removed with
    the blanks in front of it. So the description is the text itself exactly if no character of it
    ends a line. -/
theorem parse_describing (s : String) (hfeed : '\n' ∉ s.toList) (hreturn : '\r' ∉ s.toList) :
    DocComment.parse (describing s) Imports.builtin.entries =
        .ok [describedModel (String.ofList (asRead s.toList))] ∧
      (DocComment.parse (describing s) Imports.builtin.entries = .ok [describedModel s] ↔
        ∀ c ∈ s.toList, Text.isLineEnd c = false) := by
  have hparse := parse_of_strip (typed_describedModel _) (strip_describing hreturn)
  have hmodel : describedModel (String.ofList (asRead s.toList)) = describedModel s ↔
      asRead s.toList = s.toList := by
    simp [describedModel, ← String.toList_inj]
  refine ⟨hparse, ?_⟩
  rw [hparse, Except.ok.injEq, List.singleton_inj, hmodel]
  exact asRead_eq_self_iff hfeed

/-- A line separator in the text is read as a line feed, and the star behind it is lost. -/
theorem parse_describing_line_separator :
    '\n' ∉ "a\u2028 * \"b\"".toList ∧ '\r' ∉ "a\u2028 * \"b\"".toList ∧
      DocComment.parse (describing "a\u2028 * \"b\"") Imports.builtin.entries =
        .ok [describedModel "a\n \"b\""] ∧
      DocComment.parse (describing "a\u2028 * \"b\"") Imports.builtin.entries ≠
        .ok [describedModel "a\u2028 * \"b\""] := by
  have hfeed : '\n' ∉ "a\u2028 * \"b\"".toList := by decide +kernel
  have hreturn : '\r' ∉ "a\u2028 * \"b\"".toList := by decide +kernel
  have hread : String.ofList (asRead "a\u2028 * \"b\"".toList) = "a\n \"b\"" := by
    decide +kernel
  have hends : ¬Text.IsLine "a\u2028 * \"b\"".toList := by decide +kernel
  obtain ⟨hparse, hself⟩ := parse_describing _ hfeed hreturn
  rw [hread] at hparse
  exact ⟨hfeed, hreturn, hparse, fun h => hends (hself.mp h)⟩

end Marginalia
