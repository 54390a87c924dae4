import Marginalia.Proofs.DocComment.Extent
import Marginalia.Proofs.Expression.Literal

/-!
# The annotations of a comment

A comment is prose with sentences of the grammar in it. This module says which texts are read so,
without mentioning how they are searched:

* `Sentence`: an annotation expression as it stands in a comment;
* `Prose`: a text in which no at sign starts an annotation;
* `Passage`: a sentence and the prose behind it, which must not run on into the sentence.

Reading a comment gives the values of its sentences in order, or the fault of the first one that has
none (`parse_eq_mapM_sentences`).
-/

namespace Marginalia.DocComment

open Expression

/-! ## 1. Names behind at signs -/

/-- Names without a dollar sign. -/
def plainName : Language Char := optional {['\\']} * identifierRow

theorem plainName?_finds (cs : List Char) : Finds plainName cs (plainName? cs) := by
  unfold plainName?
  split
  · rename_i rest
    exact (identifiers?_finds rest).optional_some (identifierRow_avoids (by decide))
      nil_not_mem_identifierRow
  · rename_i hne
    refine (identifiers?_finds cs).optional_none fun hhead => ?_
    cases cs with
    | nil => cases hhead
    | cons c rest =>
        cases hhead
        exact hne rest rfl

theorem finds_plainName_iff {cs : List Char} {r : Option (List Char)} :
    Finds plainName cs r ↔ plainName? cs = r := by
  constructor
  · exact (plainName?_finds cs).unique
  · rintro rfl
    exact plainName?_finds cs

theorem mem_plainName {w : List Char} (h : w ∈ nameLexeme) (hdollar : '$' ∉ w) :
    w ∈ plainName := by
  have hrow : ∀ v ∈ optional {['$']} * identifierRow, '$' ∉ v → v ∈ identifierRow := by
    intro v hv hnot
    rcases mem_optional_mul.mp hv with hv | hv
    · exact hv
    · obtain ⟨u, -, rfl⟩ := mem_char_mul.mp hv
      exact absurd List.mem_cons_self hnot
  rcases mem_optional_mul.mp h with h | h
  · exact mem_optional_mul.mpr (.inl (hrow w h hdollar))
  · obtain ⟨v, hv, rfl⟩ := mem_char_mul.mp h
    have hnot : '$' ∉ v := fun hmem => hdollar (List.mem_cons_of_mem _ hmem)
    exact mem_optional_mul.mpr (.inr (mem_char_mul.mpr ⟨v, hrow v hv hnot, rfl⟩))

theorem plainName_spares {c : Char} (hpart : Text.isIdentPart c = false) (hseparator : c ≠ '\\') :
    Spares plainName c :=
  (spares_char hseparator).optional.mul (identifierRow_spares hpart hseparator)

theorem plainName_spares_blank {c : Char} (h : Text.isBlank c = true) : Spares plainName c := by
  have hranges : ∀ r ∈ Text.blankRanges, r.2 ≤ 0x20 ∨ 0x85 ≤ r.1 := by decide
  obtain ⟨r, hr, hlow, hhigh⟩ := (Text.Ranges.has_iff Text.blankRanges c).mp h
  have hrange : c.toNat ≤ 0x20 ∨ 0x85 ≤ c.toNat := by
    rcases hranges r hr with hr | hr <;> omega
  refine plainName_spares ?_ ?_
  · cases hpart : Text.isIdentPart c with
    | false => rfl
    | true =>
        unfold Text.isIdentPart Text.isIdentStart Text.isAsciiLetter at hpart
        simp only [Bool.or_eq_true, Bool.and_eq_true, decide_eq_true_eq] at hpart
        rcases hpart with ((hpart | hpart) | rfl) | hpart
        · omega
        · omega
        · revert hrange
          decide
        · omega
  · rintro rfl
    revert hrange
    decide

theorem plainName_spares_separator {c : Char} (h : c ∈ separators) : Spares plainName c := by
  have hclasses : ∀ c ∈ separators, Text.isIdentPart c = false ∧ c ≠ '\\' :=
    List.all_iff_forall_prop.mp (by decide)
  exact plainName_spares (hclasses c h).1 (hclasses c h).2

/-- The name leads into the annotation namespace. -/
def Leads (aliases : Aliases) (name : String) : Prop :=
  ∃ full, resolveNote? name aliases = some full ∧
    namespaceStart.isPrefixOf (Text.lower full.toList) = true

instance (aliases : Aliases) (name : String) : Decidable (Leads aliases name) :=
  decidable_of_iff
    ((resolveNote? name aliases).any fun full =>
      namespaceStart.isPrefixOf (Text.lower full.toList)) (by
    rw [Option.any_eq_true]
    rfl)

theorem kindOf_eq_none_iff {aliases : Aliases} {name : String} :
    kindOf aliases name = .ok none ↔ ¬Leads aliases name := by
  unfold kindOf
  constructor
  · rintro h ⟨full, hfull, hstart⟩
    rw [hfull] at h
    dsimp only at h
    rw [if_pos hstart] at h
    split at h <;> cases h
  · intro h
    split
    · rfl
    · rename_i full hfull
      rw [if_neg fun hstart => h ⟨full, hfull, hstart⟩]

/-! ## 2. Sentences -/

/-- An annotation expression as it stands in a comment: its name right behind the at sign and
    without a dollar sign, its last token at the end, and the name one of an annotation. -/
structure Sentence (aliases : Aliases) where
  text : List Char
  derivation : Derivation .expression
  tokenised : Tokenised text derivation.words
  opens : ∃ rest, text = '@' :: (derivation.head.toList ++ rest)
  plain : '$' ∉ derivation.head.toList
  ends : ∀ c ∈ text.getLast?, isSkipped c = false
  known : ∃ k, kindOf aliases derivation.head = .ok (some k)

/-- What stands behind the name of a sentence: nothing, or an argument list. -/
inductive Sentence.Tail : Derivation .expression → List Char → Prop
  | bare (name : String) : Tail (.bare name) []
  | applied (name : String) (arguments : Derivation (.list .arguments)) {rest : List Char}
      (h : Spelled rest arguments.words) (hend : ∀ c ∈ rest.getLast?, isSkipped c = false) :
      Tail (.applied name arguments) rest

theorem Sentence.exists_tail {aliases : Aliases} (s : Sentence aliases) :
    ∃ rest, s.text = '@' :: (s.derivation.head.toList ++ rest) ∧
      s.derivation.head.toList ∈ plainName ∧ Tail s.derivation rest := by
  obtain ⟨text, d, htokenised, ⟨rest, rfl⟩, hplain, hends, -⟩ := s
  dsimp only at hplain hends ⊢
  refine ⟨rest, rfl, ?_⟩
  have hspelled := htokenised.spelled
  have hlast : ∀ c ∈ rest.getLast?, isSkipped c = false := by
    intro c hc
    refine hends c ?_
    rw [← List.cons_append, List.getLast?_append, Option.mem_def.mp hc]
    rfl
  cases d with
  | bare name =>
      have hrest : Spelled rest [] :=
        Spelled.tail (x := ⟨.name, name⟩) (Spelled.tail (x := Word.at) hspelled)
      have hname : name.toList ∈ nameLexeme :=
        hspelled.words ⟨.name, name⟩ (List.mem_cons_of_mem _ List.mem_cons_self)
      obtain rfl : rest = [] := by
        cases h : rest.getLast? with
        | none => exact List.getLast?_eq_none_iff.mp h
        | some c =>
            have hskipped := hrest.isSkipped c (List.mem_of_getLast? h)
            rw [hlast c h] at hskipped
            cases hskipped
      exact ⟨mem_plainName hname hplain, .bare name⟩
  | applied name arguments =>
      have hrest : Spelled rest arguments.words :=
        Spelled.tail (x := ⟨.name, name⟩) (Spelled.tail (x := Word.at) hspelled)
      have hname : name.toList ∈ nameLexeme :=
        hspelled.words ⟨.name, name⟩ (List.mem_cons_of_mem _ List.mem_cons_self)
      exact ⟨mem_plainName hname hplain, .applied name arguments hrest hlast⟩

/-- What follows a sentence does not run on into it: it continues neither the name of one without an
    argument list nor gives it one. -/
def Sentence.EndsBefore {aliases : Aliases} (s : Sentence aliases) (following : List Char) : Prop :=
  s.derivation.isBare = true →
    (∀ v, v <+: following → s.derivation.head.toList ++ v ∈ plainName → v = []) ∧
      (Text.trimLeft following).head? ≠ some '('

/-- The name of a sentence is the name found behind its at sign. -/
theorem Sentence.plainName? {aliases : Aliases} (s : Sentence aliases) {rest : List Char}
    (hname : s.derivation.head.toList ∈ plainName) (htail : Tail s.derivation rest)
    {following : List Char} (hfollowing : s.EndsBefore following) :
    plainName? (s.derivation.head.toList ++ (rest ++ following)) =
      some s.derivation.head.toList := by
  refine finds_plainName_iff.mp ?_
  generalize hd : s.derivation = d at *
  cases htail with
  | bare name =>
      rw [Sentence.EndsBefore, hd] at hfollowing
      obtain ⟨hends, -⟩ := hfollowing rfl
      refine ⟨hname, List.prefix_append _ _, fun v hv hfront => ?_⟩
      rw [List.nil_append] at hfront
      rcases List.prefix_or_prefix_of_prefix hfront (List.prefix_append _ _) with h | ⟨u, rfl⟩
      · exact h.length_le
      · have hu : u <+: following := (List.prefix_append_right_inj _).mp hfront
        rw [hends u hu hv, List.append_nil]
  | applied name arguments h hend =>
      obtain ⟨c, more, rfl, hc⟩ := exists_separator arguments h
      have hself : Finds plainName name.toList (some name.toList) :=
        ⟨hname, List.prefix_rfl, fun v _ hfront => hfront.length_le⟩
      exact hself.before (plainName_spares_separator hc) (more ++ following)

/-- **A sentence at a place where an annotation may start is found, with its whole text.** -/
theorem annotationAt_sentence {aliases : Aliases} (s : Sentence aliases) {before : Option Char}
    (hbefore : mayStart before = true) {following : List Char}
    (hfollowing : s.EndsBefore following) :
    annotationAt aliases before (s.text ++ following) =
      (evaluate aliases s.text).map fun v => some (v, s.text.length) := by
  obtain ⟨rest, htext, hname, htail⟩ := s.exists_tail
  obtain ⟨k, hk⟩ := s.known
  have hfound := s.plainName? hname htail hfollowing
  have harguments : argumentList s.derivation.head (rest ++ following) = .ok rest := by
    generalize hd : s.derivation = d at *
    cases htail with
    | bare name =>
        rw [Sentence.EndsBefore, hd] at hfollowing
        exact argumentList_of_head (hfollowing rfl).2 name
    | applied name arguments h hend => exact argumentList_of_spelled arguments h hend name following
  have hstart : s.text ++ following =
      '@' :: (s.derivation.head.toList ++ (rest ++ following)) := by
    rw [htext, List.cons_append, List.append_assoc]
  rw [hstart, annotationAt]
  dsimp only
  rw [if_pos hbefore, hfound]
  dsimp only
  rw [String.ofList_toList, hk]
  dsimp only
  rw [List.drop_left, harguments]
  dsimp only
  rw [List.cons_append, ← htext]

/-- The value of a sentence is an annotation, never a foreign one. -/
theorem Sentence.evaluate_note {aliases : Aliases} (s : Sentence aliases) {v : Value}
    (h : evaluate aliases s.text = .ok v) : ∃ a, v = .note a := by
  obtain ⟨k, hk⟩ := s.known
  have hannotate : ∀ parts, annotate aliases s.derivation.head parts = .ok v →
      ∃ a, v = .note a := by
    intro parts hv
    rw [annotate, hk] at hv
    dsimp only at hv
    generalize Note.build k _ = built at hv
    cases built with
    | error fault => cases hv
    | ok a =>
        cases hv
        exact ⟨a, rfl⟩
  rw [evaluate, parse_eq_ok_iff.mpr ⟨s.derivation, s.tokenised, rfl⟩] at h
  dsimp only at h
  generalize s.derivation = d at *
  cases d with
  | bare name => exact hannotate [] h
  | applied name arguments =>
      rw [Derivation.meaning, Tree.eval] at h
      split at h
      · cases h
      · exact hannotate _ h

/-! ## 3. Prose -/

/-- No at sign in the text that opens it or follows a blank has a name behind it that leads into the
    annotation namespace. The text stands behind the character `before`. -/
def Prose (aliases : Aliases) (before : Option Char) (p : List Char) : Prop :=
  ∀ u v, p = u ++ '@' :: v → (∀ c ∈ u.getLast?.or before, Text.isBlank c = true) →
    ∀ name, Finds plainName v (some name) → ¬Leads aliases (String.ofList name)

/-- The text ends in a blank. -/
def EndsBlank (p : List Char) : Prop := ∃ q c, p = q ++ [c] ∧ Text.isBlank c = true

/-- What stands in front of the next character, a character further on. -/
theorem getLast?_cons_or (c : Char) (u : List Char) (before : Option Char) :
    (c :: u).getLast?.or before = u.getLast?.or (some c) := by
  rw [List.getLast?_cons]
  cases u.getLast? with
  | none => rfl
  | some d => rfl

theorem mayStart_iff {before : Option Char} :
    mayStart before = true ↔ ∀ c ∈ before, Text.isBlank c = true := by
  cases before with
  | none => exact ⟨fun _ => nofun, fun _ => rfl⟩
  | some d =>
      refine ⟨fun h c hc => ?_, fun h => h d rfl⟩
      cases hc
      exact h

theorem prose_nil (aliases : Aliases) (before : Option Char) : Prose aliases before [] := by
  intro u v h
  cases u <;> cases h

theorem prose_cons_iff {aliases : Aliases} {before : Option Char} {c : Char} {p : List Char} :
    Prose aliases before (c :: p) ↔
      (c = '@' → mayStart before = true →
        ∀ name ∈ plainName? p, ¬Leads aliases (String.ofList name)) ∧
      Prose aliases (some c) p := by
  constructor
  · intro h
    refine ⟨fun hc hbefore name hname => ?_, fun u v hp hblank => ?_⟩
    · refine h [] p (by rw [hc]; rfl) (mayStart_iff.mp hbefore) name ?_
      exact finds_plainName_iff.mpr hname
    · refine h (c :: u) v (by rw [hp]; rfl) ?_
      rwa [getLast?_cons_or]
  · rintro ⟨hhead, htail⟩ u v hp hblank
    cases u with
    | nil =>
        obtain ⟨rfl, rfl⟩ := List.cons.inj hp
        intro name hname
        exact hhead rfl (mayStart_iff.mpr hblank) name (finds_plainName_iff.mp hname)
    | cons d u =>
        obtain ⟨rfl, rfl⟩ := List.cons.inj hp
        rw [getLast?_cons_or] at hblank
        exact htail u v rfl hblank

instance decidableProse (aliases : Aliases) (before : Option Char) :
    (p : List Char) → Decidable (Prose aliases before p)
  | [] => isTrue (prose_nil aliases before)
  | c :: p =>
    have := decidableProse aliases (some c) p
    decidable_of_iff _ prose_cons_iff.symm

theorem EndsBlank.tail {c : Char} {p : List Char} (h : EndsBlank (c :: p)) :
    p = [] ∨ EndsBlank p := by
  obtain ⟨q, d, hq, hd⟩ := h
  cases q with
  | nil => exact .inl (List.cons.inj hq).2
  | cons _ q => exact .inr ⟨q, d, (List.cons.inj hq).2, hd⟩

theorem EndsBlank.mayStart {p : List Char} (h : EndsBlank p) (before : Option Char) :
    mayStart (p.getLast?.or before) = true := by
  obtain ⟨q, c, rfl, hc⟩ := h
  rw [List.getLast?_append]
  exact hc

/-- Behind a blank nothing belongs to a name in front of it. -/
theorem EndsBlank.plainName? {v : List Char} (hv : EndsBlank v) (rest : List Char) :
    plainName? (v ++ rest) = plainName? v := by
  obtain ⟨q, c, rfl, hc⟩ := hv
  have hbefore := (plainName?_finds q).before (plainName_spares_blank hc)
  rw [List.append_assoc, List.singleton_append, finds_plainName_iff.mp (hbefore rest),
    finds_plainName_iff.mp (hbefore [])]

/-- Where no annotation starts, none is found. -/
theorem annotationAt_prose {aliases : Aliases} {before : Option Char} {c : Char} {rest : List Char}
    (h : c = '@' → mayStart before = true → ∀ name, plainName? rest = some name →
      kindOf aliases (String.ofList name) = .ok none) :
    annotationAt aliases before (c :: rest) = .ok none := by
  unfold annotationAt
  split
  · rename_i rest' heq
    obtain ⟨rfl, rfl⟩ := List.cons.inj heq
    by_cases hbefore : mayStart before = true
    · rw [if_pos hbefore]
      split
      · rfl
      · rename_i name hname
        rw [h rfl hbefore name hname]
    · rw [if_neg hbefore]
  · rfl

/-- **The search passes over prose.** What follows the prose must not belong to a name in it, so
    there is nothing, or the prose ends in a blank. -/
theorem annotationsFrom_prose {aliases : Aliases} {before : Option Char} {p rest : List Char}
    (h : Prose aliases before p) (hrest : rest = [] ∨ p = [] ∨ EndsBlank p) :
    annotationsFrom aliases 0 before (p ++ rest) =
      annotationsFrom aliases 0 (p.getLast?.or before) rest := by
  induction p generalizing before with
  | nil => rfl
  | cons c p ih =>
      obtain ⟨hhead, htail⟩ := prose_cons_iff.mp h
      have hnone : annotationAt aliases before (c :: (p ++ rest)) = .ok none := by
        refine annotationAt_prose fun hc hbefore name hname => kindOf_eq_none_iff.mpr ?_
        refine hhead hc hbefore name ?_
        rcases hrest with rfl | hnil | hblank
        · rwa [List.append_nil] at hname
        · cases hnil
        · rcases hblank.tail with rfl | hblank'
          · rw [hc] at hblank
            exact absurd (hblank.mayStart none) (by decide)
          · rwa [hblank'.plainName?] at hname
      have hrest : rest = [] ∨ p = [] ∨ EndsBlank p := by
        rcases hrest with hrest | hrest | hrest
        · exact .inl hrest
        · cases hrest
        · exact .inr hrest.tail
      rw [List.cons_append, annotationsFrom, hnone]
      dsimp only
      rw [ih htail hrest, getLast?_cons_or]

/-! ## 4. Passages -/

/-- A sentence and the prose behind it. -/
structure Passage (aliases : Aliases) where
  sentence : Sentence aliases
  prose : List Char
  isProse : Prose aliases sentence.text.getLast? prose
  endsBefore : sentence.EndsBefore prose

/-- The text of a passage. -/
def Passage.text {aliases : Aliases} (x : Passage aliases) : List Char := x.sentence.text ++ x.prose

/-- A sentence ends before prose that ends in a blank, whatever sentence follows that. -/
theorem Sentence.EndsBefore.append {aliases : Aliases} {s : Sentence aliases} {p rest : List Char}
    (h : s.EndsBefore p) (hp : EndsBlank p) (hrest : rest.head? = some '@') :
    s.EndsBefore (p ++ rest) := by
  intro hbare
  obtain ⟨hname, hhead⟩ := h hbare
  constructor
  · intro v hfront hv
    obtain ⟨q, c, rfl, hc⟩ := hp
    rw [List.append_assoc, List.singleton_append] at hfront
    have hspared : c ∉ v := fun hmem =>
      plainName_spares_blank hc _ hv (List.mem_append_right _ hmem)
    have hq : v <+: q := (prefix_append_cons_iff hspared rest).mp hfront
    exact hname v (hq.trans (List.prefix_append _ _)) hv
  · have hblank : Text.isBlank '@' = false := by decide
    unfold Text.trimLeft Text.dropLeft at hhead ⊢
    rw [List.dropWhile_append]
    split
    · obtain ⟨more, rfl⟩ := List.head?_eq_some_iff.mp hrest
      rw [List.dropWhile_cons, hblank]
      exact nofun
    · rename_i hne
      cases hdrop : p.dropWhile Text.isBlank with
      | nil =>
          rw [hdrop] at hne
          exact absurd rfl hne
      | cons d more =>
          rw [hdrop] at hhead
          exact hhead

/-- Characters of an annotation that has been read already are passed over. -/
theorem annotationsFrom_inside (aliases : Aliases) (inside rest : List Char)
    (before : Option Char) :
    annotationsFrom aliases inside.length before (inside ++ rest) =
      annotationsFrom aliases 0 (inside.getLast?.or before) rest := by
  induction inside generalizing before with
  | nil => rfl
  | cons c inside ih =>
      rw [getLast?_cons_or]
      exact ih (some c)

/-- Behind a sentence with a value the search goes on. -/
theorem annotationsFrom_sentence {aliases : Aliases} (s : Sentence aliases) {before : Option Char}
    (hbefore : mayStart before = true) {following : List Char}
    (hfollowing : s.EndsBefore following) :
    (annotationsFrom aliases 0 before (s.text ++ following)).map (·.map Value.note) =
      (evaluate aliases s.text).bind fun v =>
        ((annotationsFrom aliases 0 s.text.getLast? following).map (·.map Value.note)).map
          (v :: ·) := by
  have hat := annotationAt_sentence s hbefore hfollowing
  have hnote := fun v => s.evaluate_note (v := v)
  obtain ⟨rest, htext, -⟩ := s.exists_tail
  generalize s.derivation.head.toList ++ rest = more at htext
  rw [htext] at hat hnote ⊢
  rw [List.cons_append] at hat ⊢
  rw [annotationsFrom, hat]
  cases hvalue : evaluate aliases ('@' :: more) with
  | error fault => rfl
  | ok v =>
      obtain ⟨a, rfl⟩ := hnote v hvalue
      have hinside := annotationsFrom_inside aliases more following (some '@')
      rw [← getLast?_cons_or '@' more none, Option.or_none] at hinside
      show ((annotationsFrom aliases more.length (some '@') (more ++ following)).map
        (a :: ·)).map (·.map Value.note) = _
      rw [hinside]
      cases annotationsFrom aliases 0 ('@' :: more).getLast? following with
      | error fault => rfl
      | ok notes => rfl

theorem annotationsFrom_passages {aliases : Aliases} (passages : List (Passage aliases))
    (hinner : ∀ x ∈ passages.dropLast, EndsBlank x.prose) {before : Option Char}
    (hbefore : passages ≠ [] → mayStart before = true) :
    (annotationsFrom aliases 0 before (passages.flatMap Passage.text)).map (·.map Value.note) =
      passages.mapM fun x => evaluate aliases x.sentence.text := by
  induction passages generalizing before with
  | nil => rfl
  | cons x more ih =>
      have hstart := hbefore (List.cons_ne_nil x more)
      -- Either nothing follows the passage, or its prose ends in a blank and a sentence follows.
      have hnext : more.flatMap Passage.text = [] ∧ more = [] ∨
          EndsBlank x.prose ∧ (more.flatMap Passage.text).head? = some '@' := by
        cases more with
        | nil => exact .inl ⟨rfl, rfl⟩
        | cons y more =>
            obtain ⟨rest, htext, -⟩ := y.sentence.exists_tail
            refine .inr ⟨hinner x List.mem_cons_self, ?_⟩
            rw [List.flatMap_cons, Passage.text, htext]
            rfl
      have hends : x.sentence.EndsBefore (x.prose ++ more.flatMap Passage.text) := by
        rcases hnext with ⟨hnil, -⟩ | ⟨hblank, hhead⟩
        · rw [hnil, List.append_nil]
          exact x.endsBefore
        · exact x.endsBefore.append hblank hhead
      have hprose : annotationsFrom aliases 0 x.sentence.text.getLast?
          (x.prose ++ more.flatMap Passage.text) = _ :=
        annotationsFrom_prose x.isProse (hnext.imp And.left fun h => .inr h.1)
      have hmore : (annotationsFrom aliases 0 (x.prose.getLast?.or x.sentence.text.getLast?)
          (more.flatMap Passage.text)).map (·.map Value.note) = _ := ih ?_ ?_
      · rw [List.flatMap_cons, Passage.text, List.append_assoc,
          annotationsFrom_sentence x.sentence hstart hends, hprose, hmore, List.mapM_cons]
        cases evaluate aliases x.sentence.text with
        | error fault => rfl
        | ok v =>
            cases more.mapM fun x => evaluate aliases x.sentence.text with
            | error fault => rfl
            | ok values => rfl
      · intro y hy
        refine hinner y ?_
        cases more with
        | nil => cases hy
        | cons z more => exact List.mem_cons_of_mem x hy
      · intro hne
        rcases hnext with ⟨-, hnil⟩ | ⟨hblank, -⟩
        · exact absurd hnil hne
        · exact hblank.mayStart _

/-- **A comment gives the values of its sentences.** If the text of a comment is prose with
    sentences in it, reading it gives the value of every sentence in order, each of them an
    annotation, or the fault of the first sentence that has no value. What looks like an annotation
    inside a sentence is never found. -/
theorem parse_eq_mapM_sentences (aliases : Aliases) (comment : String) (front : List Char)
    (passages : List (Passage aliases))
    (htext : strip comment.toList = front ++ passages.flatMap Passage.text)
    (hfront : Prose aliases none front)
    (hopening : passages ≠ [] → front = [] ∨ EndsBlank front)
    (hinner : ∀ x ∈ passages.dropLast, EndsBlank x.prose) :
    (parse comment aliases).map (·.map Value.note) =
      passages.mapM fun x => evaluate aliases x.sentence.text := by
  have hprose : annotationsFrom aliases 0 none (front ++ passages.flatMap Passage.text) = _ :=
    annotationsFrom_prose hfront (by
      cases passages with
      | nil => exact .inl rfl
      | cons x more => exact .inr (hopening (List.cons_ne_nil x more)))
  rw [parse, htext, hprose]
  refine annotationsFrom_passages passages hinner fun hne => ?_
  rcases hopening hne with rfl | hblank
  · rfl
  · exact hblank.mayStart none

/-! ## 5. A comment with two sentences -/

/-- A sentence whose string holds a parenthesis and what looks like an annotation. -/
def sampleModel : Sentence Imports.builtin.entries where
  text := "@SWG\\Model(id=\"a ) @SWG\\Api\")".toList
  derivation := .applied "SWG\\Model" (.filled
    (.single (.assignment "id" (.leaf .string "\"a ) @SWG\\Api\""))) false)
  tokenised := (tokens_eq_iff _ _).mp (by decide +kernel)
  opens := ⟨"(id=\"a ) @SWG\\Api\")".toList, by decide +kernel⟩
  plain := by decide +kernel
  ends := by
    rintro c ⟨⟩
    rfl
  known := ⟨.model, kindOf_written .model⟩

/-- A sentence without an argument list. -/
def sampleBare : Sentence Imports.builtin.entries where
  text := "@SWG\\Model".toList
  derivation := .bare "SWG\\Model"
  tokenised := (tokens_eq_iff _ _).mp (by decide +kernel)
  opens := ⟨[], by decide +kernel⟩
  plain := by decide +kernel
  ends := by
    rintro c ⟨⟩
    rfl
  known := ⟨.model, kindOf_written .model⟩

/-- The two sentences with prose behind them. -/
def samplePassages : List (Passage Imports.builtin.entries) :=
  [{ sentence := sampleModel
     prose := " or\n ".toList
     isProse := by decide +kernel
     endsBefore := nofun },
   { sentence := sampleBare
     prose := " \"x\" ".toList
     isProse := by decide +kernel
     endsBefore := by
      refine fun _ => ⟨fun v hfront hv => ?_, by decide +kernel⟩
      cases v with
      | nil => rfl
      | cons c v =>
          obtain ⟨rfl, -⟩ := List.cons_prefix_cons.mp
            (show c :: v <+: ' ' :: ['"', 'x', '"', ' '] from hfront)
          have hspares : Spares plainName ' ' := plainName_spares_blank (by decide)
          exact absurd (List.mem_append_right _ List.mem_cons_self) (hspares _ hv) }]

/-- Prose that mentions a name which leads elsewhere, and an address. -/
def sampleFront : List Char := " Pets, see @todo and a@b.\n ".toList

/-- The comment that the passages stand in. -/
def sampleComment : String :=
  "/** Pets, see @todo and a@b.\n * @SWG\\Model(id=\"a ) @SWG\\Api\") or\n * @SWG\\Model \"x\" */"

theorem parse_sample_comment :
    strip sampleComment.toList = sampleFront ++ samplePassages.flatMap Passage.text ∧
    Prose Imports.builtin.entries none sampleFront ∧ EndsBlank sampleFront ∧
    (∀ x ∈ samplePassages.dropLast, EndsBlank x.prose) ∧
    (parse sampleComment Imports.builtin.entries).map (·.map Value.note) =
      samplePassages.mapM fun x => evaluate Imports.builtin.entries x.sentence.text := by
  have htext : strip sampleComment.toList =
      sampleFront ++ samplePassages.flatMap Passage.text := by decide +kernel
  have hfront : Prose Imports.builtin.entries none sampleFront := by decide +kernel
  have hblank : EndsBlank sampleFront :=
    ⟨" Pets, see @todo and a@b.\n".toList, ' ', by decide +kernel, by decide⟩
  have hinner : ∀ x ∈ samplePassages.dropLast, EndsBlank x.prose :=
    List.forall_mem_singleton.mpr ⟨" or\n".toList, ' ', by decide +kernel, by decide⟩
  exact ⟨htext, hfront, hblank, hinner, parse_eq_mapM_sentences Imports.builtin.entries
    sampleComment sampleFront samplePassages htext hfront (fun _ => .inr hblank) hinner⟩

end Marginalia.DocComment
