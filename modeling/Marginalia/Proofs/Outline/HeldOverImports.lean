import Marginalia.Proofs.Outline.Preamble

/-!
# A comment in front of imports

A file imports classes, functions and constants, one by one, in lists and in groups. A comment that
stands in front of the statement is meant for the declaration behind it.

* `Walk.read`: the pass over some tokens, with more to come; `Walk.Passes`: nothing is let go on
  the way;
* `Token.IsImportKind`, `ImportsAnything`: the words for functions and constants, and the statements
  that they may stand in;
* `Meets`, `ImportsAnything.meets`: up to the first such word every statement keeps the comment;
* `read_word`: what the word does to the comment.

Main statement: `held_over_imports_of_classes`. The comment is still held behind the statement if
and only if no such word stands in it. The first one takes the pass for a declaration: a function
takes the comment, everything else lets it go on its own.
-/

namespace Marginalia.Php

/-! ## 1. Reading on -/

/-- The pass over tokens that are not the last ones of the source. -/
def Walk.read (path : String) (w : Walk) : List Token → Outcome
  | [] => (w, [])
  | t :: ts => ((w.step path t).1.read path ts).behind (w.step path t).2

theorem Walk.read_append (path : String) (w : Walk) (xs ys : List Token) :
    w.read path (xs ++ ys) =
      ((w.read path xs).1.read path ys).behind (w.read path xs).2 := by
  induction xs generalizing w with
  | nil => rfl
  | cons t xs ih =>
      rw [List.cons_append, Walk.read, ih, Outcome.behind_behind]
      rfl

/-- What stands behind is read in the state that is left. -/
theorem Walk.run_append (path : String) (w : Walk) (xs ys : List Token) :
    w.run path (xs ++ ys) = ((w.read path xs).1.run path ys).behind (w.read path xs).2 := by
  induction xs generalizing w with
  | nil => rfl
  | cons t xs ih =>
      rw [List.cons_append, Walk.run_cons, ih, Outcome.behind_behind]
      rfl

/-- The pass with a cursor reads them in the same way. -/
theorem Pass.run_append (path : String) (scope : Scope) (held : Option Held) (isStatic : Bool)
    (xs ys : List Token) :
    ∃ last, Pass.run path ⟨scope, .scanning, held, isStatic⟩ (xs ++ ys) =
      .ok (last, (Walk.read path ⟨scope, .scanning held⟩ xs).2 ++
        ((Walk.read path ⟨scope, .scanning held⟩ xs).1.run path ys).2) := by
  obtain ⟨last, hlast⟩ := Pass.run_agrees path (.scanning scope held isStatic) (xs ++ ys)
  rw [Walk.run_append] at hlast
  exact ⟨_, hlast⟩

/-- The tokens lead from one state to another, and no comment is let go. -/
def Walk.Passes (path : String) (w : Walk) (ts : List Token) (next : Walk) : Prop :=
  w.read path ts = (next, [])

section Passes

variable {path : String} {w middle next : Walk}

theorem Walk.Passes.append {xs ys : List Token} (hxs : w.Passes path xs middle)
    (hys : middle.Passes path ys next) : w.Passes path (xs ++ ys) next := by
  unfold Walk.Passes at hxs hys ⊢
  rw [Walk.read_append, hxs, Outcome.behind_nil, hys]

theorem Walk.Passes.cons {t : Token} {ts : List Token} (hstep : w.step path t = (middle, []))
    (hts : middle.Passes path ts next) : w.Passes path (t :: ts) next := by
  unfold Walk.Passes at hts ⊢
  rw [Walk.read, hstep, Outcome.behind_nil, hts]

theorem Walk.Passes.one {t : Token} (hstep : w.step path t = (next, [])) :
    w.Passes path [t] next := .cons hstep rfl

/-- Where no comment is held, nothing happens over idle tokens. -/
theorem passes_idle (path : String) (scope : Scope) {ts : List Token} (hts : ∀ t ∈ ts, t.IsIdle) :
    Walk.Passes path ⟨scope, .scanning none⟩ ts ⟨scope, .scanning none⟩ := by
  induction ts with
  | nil => rfl
  | cons t ts ih =>
      obtain ⟨ht, hmore⟩ := List.forall_mem_cons.mp hts
      refine .cons ?_ (ih hmore)
      unfold Token.IsIdle at ht
      cases hk : t.kind with
      | docComment | kwNamespace | kwUse | kwClass => simp [hk] at ht
      | _ => simp only [Walk.step, scan, hk]

end Passes

/-! ## 2. Statements -/

/-- **A word that says what is imported**: functions or constants. -/
def Token.IsImportKind (t : Token) : Prop :=
  t.kind = .kwFunction ∨ (t.kind = .keyword ∧ Text.lowercase t.text = "const")

instance (t : Token) : Decidable t.IsImportKind :=
  inferInstanceAs (Decidable (t.kind = .kwFunction ∨ (t.kind = .keyword ∧ _)))

/-- A name that is imported, with an alias of its own or without. -/
inductive ImportedName : List Token → Prop
  | plain {ts : List Token} (hname : SpellsName true ts) (htext : nameText ts ≠ "") :
      ImportedName ts
  | renamed {ts : List Token} {word short : Token} (hname : SpellsName true ts)
      (htext : nameText ts ≠ "") (hword : word.kind = .kwAs) (hshort : short.kind = .ident) :
      ImportedName (ts ++ [word, short])

/-- A row of one such token, or of none. -/
inductive Optionally (p : Token → Prop) : List Token → Prop
  | none : Optionally p []
  | some {t : Token} (ht : p t) : Optionally p [t]

/-- Imported names with commas between them. The word for functions or constants may stand in front
    of each. -/
inductive Members : List Token → Prop
  | one {word ts : List Token} (hword : Optionally Token.IsImportKind word)
      (hname : ImportedName ts) : Members (word ++ ts)
  | more {word ts us : List Token} {comma : Token} (hword : Optionally Token.IsImportKind word)
      (hname : ImportedName ts) (hcomma : comma.isPunct "," = true) (hmore : Members us) :
      Members (word ++ ts ++ comma :: us)

/-- **A statement that imports anything**, behind the word that opens it. -/
inductive ImportsAnything : List Token → Prop
  | list {semicolon : Token} {ts : List Token} (hmembers : Members ts)
      (hend : semicolon.isPunct ";" = true) : ImportsAnything (ts ++ [semicolon])
  /-- A group, with a comma behind its last name or without. -/
  | group {slash opening closing semicolon : Token} {word front ts comma : List Token}
      (hword : Optionally Token.IsImportKind word) (hfront : SpellsName true front)
      (htext : nameText front ≠ "") (hslash : slash.isPunct "\\" = true)
      (hopening : opening.isPunct "\x7b" = true) (hmembers : Members ts)
      (hcomma : Optionally (·.isPunct "," = true) comma) (hclosing : closing.isPunct "\x7d" = true)
      (hend : semicolon.isPunct ";" = true) :
      ImportsAnything
        (word ++ (front ++ [slash, opening] ++ (ts ++ (comma ++ [closing, semicolon]))))

/-! ## 3. The tokens of a statement -/

theorem not_isImportKind_of_kind {t : Token} {k : TokenKind} (h : t.kind = k)
    (hk : k ∉ [TokenKind.kwFunction, .keyword]) : ¬t.IsImportKind := by
  rintro (hword | ⟨hword, -⟩)
  · exact hk (by rw [← h, hword]; decide)
  · exact hk (by rw [← h, hword]; decide)

theorem not_isImportKind_of_isPunct {t : Token} {s : String} (h : t.isPunct s = true) :
    ¬t.IsImportKind := not_isImportKind_of_kind (kind_of_isPunct h) (by decide)

theorem isIdle_of_kind {t : Token} {k : TokenKind} (h : t.kind = k)
    (hk : k ∉ [TokenKind.docComment, .kwNamespace, .kwUse, .kwClass]) : t.IsIdle := by
  unfold Token.IsIdle
  rwa [h]

theorem isIdle_of_isPunct {t : Token} {s : String} (h : t.isPunct s = true) : t.IsIdle :=
  isIdle_of_kind (kind_of_isPunct h) (by decide)

theorem Token.IsImportKind.isIdle {t : Token} (h : t.IsImportKind) : t.IsIdle :=
  h.elim (isIdle_of_kind · (by decide)) (isIdle_of_kind ·.1 (by decide))

/-- A name is made of idle tokens, and none of them is a word for what is imported. -/
theorem SpellsName.idle {first : Bool} {ts : List Token} (h : SpellsName first ts) :
    ∀ t ∈ ts, t.IsIdle ∧ ¬t.IsImportKind := by
  induction h with
  | nil => exact fun _ ht => absurd ht List.not_mem_nil
  | separator ht _ ih =>
      exact List.forall_mem_cons.mpr ⟨⟨isIdle_of_isPunct ht, not_isImportKind_of_isPunct ht⟩, ih⟩
  | word ht _ ih =>
      exact List.forall_mem_cons.mpr
        ⟨⟨isIdle_of_kind ht (by decide), not_isImportKind_of_kind ht (by decide)⟩, ih⟩

/-- A name begins with a word or with a separator. -/
theorem SpellsName.exists_head {ts : List Token} (h : SpellsName true ts) (hne : nameText ts ≠ "") :
    ∃ next more, ts = next :: more ∧ (next.kind = .ident ∨ next.isPunct "\\" = true) := by
  cases h with
  | nil => exact absurd rfl hne
  | separator ht _ => exact ⟨_, _, rfl, .inr ht⟩
  | word ht _ => exact ⟨_, _, rfl, .inl ht⟩

theorem ImportedName.idle {ts : List Token} (h : ImportedName ts) :
    ∀ t ∈ ts, t.IsIdle ∧ ¬t.IsImportKind := by
  cases h with
  | plain hname _ => exact hname.idle
  | renamed hname _ hword hshort =>
      refine List.forall_mem_append.mpr ⟨hname.idle, List.forall_mem_cons.mpr ⟨?_, ?_⟩⟩
      · exact ⟨isIdle_of_kind hword (by decide), not_isImportKind_of_kind hword (by decide)⟩
      · refine List.forall_mem_singleton.mpr ?_
        exact ⟨isIdle_of_kind hshort (by decide), not_isImportKind_of_kind hshort (by decide)⟩

theorem ImportedName.exists_head {ts : List Token} (h : ImportedName ts) :
    ∃ next more, ts = next :: more ∧ (next.kind = .ident ∨ next.isPunct "\\" = true) := by
  cases h with
  | plain hname htext => exact hname.exists_head htext
  | renamed hname htext _ _ =>
      obtain ⟨next, more, rfl, hnext⟩ := hname.exists_head htext
      exact ⟨next, _, rfl, hnext⟩

theorem Optionally.idle {p : Token → Prop} (hp : ∀ t, p t → t.IsIdle) {ts : List Token}
    (h : Optionally p ts) : ∀ t ∈ ts, t.IsIdle := by
  cases h with
  | none => exact fun _ ht => absurd ht List.not_mem_nil
  | some ht => exact List.forall_mem_singleton.mpr (hp _ ht)

theorem Members.idle {ts : List Token} (h : Members ts) : ∀ t ∈ ts, t.IsIdle := by
  induction h with
  | one hword hname =>
      refine List.forall_mem_append.mpr ⟨hword.idle fun _ => Token.IsImportKind.isIdle, ?_⟩
      exact fun t ht => (hname.idle t ht).1
  | more hword hname hcomma _ ih =>
      refine List.forall_mem_append.mpr ⟨List.forall_mem_append.mpr ⟨?_, ?_⟩, ?_⟩
      · exact hword.idle fun _ => Token.IsImportKind.isIdle
      · exact fun t ht => (hname.idle t ht).1
      · exact List.forall_mem_cons.mpr ⟨isIdle_of_isPunct hcomma, ih⟩

/-- Behind the word that opens it, a statement is made of idle tokens. -/
theorem ImportsAnything.idle {ts : List Token} (h : ImportsAnything ts) : ∀ t ∈ ts, t.IsIdle := by
  cases h with
  | list hmembers hend =>
      refine List.forall_mem_append.mpr ⟨hmembers.idle, ?_⟩
      exact List.forall_mem_singleton.mpr (isIdle_of_isPunct hend)
  | group hword hfront _ hslash hopening hmembers hcomma hclosing hend =>
      simp only [List.forall_mem_append, List.forall_mem_cons]
      refine ⟨hword.idle fun _ => Token.IsImportKind.isIdle, ⟨fun t ht => (hfront.idle t ht).1,
        isIdle_of_isPunct hslash, isIdle_of_isPunct hopening, ?_⟩, hmembers.idle,
        hcomma.idle fun _ => isIdle_of_isPunct, isIdle_of_isPunct hclosing,
        isIdle_of_isPunct hend, ?_⟩
      · exact fun _ ht => absurd ht List.not_mem_nil
      · exact fun _ ht => absurd ht List.not_mem_nil

/-! ## 4. Up to the first word -/

/-- What a part of a statement does: it leads to such a mode and keeps the comment, as no word for
    what is imported stands in it, or what stands in front of its first word leads to the start of
    a name, with the comment held. -/
inductive Meets (path : String) (held : Option Held) (w : Walk) (ts : List Token)
    (behind : Mode → Prop) : Prop
  | through {next : Walk} (hfree : ∀ t ∈ ts, ¬t.IsImportKind) (hpass : w.Passes path ts next)
      (hnext : behind next.mode)
  | word {front back : List Token} {word next : Token} {scope : Scope} {group : String}
      (hts : ts = front ++ word :: next :: back) (hfree : ∀ t ∈ front, ¬t.IsImportKind)
      (hword : word.IsImportKind) (hnext : next.kind = .ident ∨ next.isPunct "\\" = true)
      (hpass : w.Passes path front ⟨scope, .importName held group []⟩)

section Meets

variable {path : String} {held : Option Held} {w : Walk} {ts us : List Token}
  {middle behind : Mode → Prop}

/-- One part behind another. -/
theorem Meets.append (hts : Meets path held w ts middle)
    (hus : ∀ next : Walk, middle next.mode → Meets path held next us behind) :
    Meets path held w (ts ++ us) behind := by
  cases hts with
  | @word front back word next scope group hts hfree hword hnext hpass =>
      have hsplit : ts ++ us = front ++ word :: next :: (back ++ us) := by
        rw [hts, List.append_assoc, List.cons_append, List.cons_append]
      exact .word hsplit hfree hword hnext hpass
  | @through next hfree hpass hmiddle =>
      cases hus next hmiddle with
      | through hfree' hpass' hbehind =>
          exact .through (List.forall_mem_append.mpr ⟨hfree, hfree'⟩) (hpass.append hpass') hbehind
      | @word front back word next' scope group hus hfree' hword hnext hpass' =>
          have hsplit : ts ++ us = ts ++ front ++ word :: next' :: back := by
            rw [hus, List.append_assoc]
          exact .word hsplit (List.forall_mem_append.mpr ⟨hfree, hfree'⟩) hword hnext
            (hpass.append hpass')

/-- A sign that leads to such a mode. -/
theorem Meets.sign {t : Token} {s : String} (ht : t.isPunct s = true) (scope : Scope) {mode : Mode}
    (hmode : behind mode) (hstep : w.step path t = (⟨scope, mode⟩, [])) :
    Meets path held w [t] behind :=
  .through (List.forall_mem_singleton.mpr (not_isImportKind_of_isPunct ht)) (.one hstep) hmode

end Meets

/-- Behind an imported name, with an alias of its own or without. -/
inductive Mode.BehindName (held : Option Held) (group : String) : Mode → Prop
  | plain {parts : List String} (hne : nameOf parts ≠ "") :
      BehindName held group (.importName held group parts)
  | renamed (target short : String) : BehindName held group (.importTail held group target short)

section Parts

variable (path : String) (held : Option Held) {w : Walk} {group : String}

/-- A name is read to its end. -/
theorem passes_name (scope : Scope) (group : String) {ts : List Token} (hts : SpellsName true ts) :
    Walk.Passes path ⟨scope, .importName held group []⟩ ts
      ⟨scope, .importName held group (ts.map (·.text))⟩ := by
  have hread : ∀ (us : List Token) (parts more : List String), readName parts us = (more, []) →
      Walk.Passes path ⟨scope, .importName held group parts⟩ us
        ⟨scope, .importName held group more⟩ := by
    intro us
    induction us with
    | nil =>
        intro parts more h
        cases h
        rfl
    | cons t us ih =>
        intro parts more h
        rw [readName] at h
        cases hc : continueName? parts t with
        | none =>
            rw [hc] at h
            cases h
        | some next =>
            rw [hc] at h
            refine .cons ?_ (ih next more h)
            simp only [Walk.step, hc]
  have hwhole : readName [] (ts ++ []) = ([] ++ ts.map (·.text), []) :=
    readName_append hts (fun _ => rfl) fun t ht => absurd ht (Option.not_mem_none t)
  rw [List.append_nil] at hwhole
  exact hread ts [] _ hwhole

/-- An imported name keeps the comment. -/
theorem ImportedName.meets {ts : List Token} (h : ImportedName ts)
    (hw : w.mode = .importName held group []) :
    Meets path held w ts (Mode.BehindName held group) := by
  obtain ⟨scope, mode⟩ := w
  subst hw
  have hfree := fun t ht => (h.idle t ht).2
  cases h with
  | plain hname htext =>
      exact .through hfree (passes_name path held scope group hname) (.plain htext)
  | @renamed us word short hname htext hword hshort =>
      have hstop : continueName? (us.map (·.text)) word = none := by
        simp [continueName?, Token.isPunct, hword]
      have hne : nameOf (us.map (·.text)) ≠ "" := htext
      have halias : Walk.step path ⟨scope, .importName held group (us.map (·.text))⟩ word =
          (⟨scope, .importAlias held group (group ++ nameOf (us.map (·.text)))⟩, []) := by
        simp only [Walk.step, hstop, endImportName, if_neg hne, hword, if_true]
      have htail : ∀ target, Walk.step path ⟨scope, .importAlias held group target⟩ short =
          (⟨scope, .importTail held group target short.text⟩, []) := by
        intro target
        simp only [Walk.step, hshort, if_true]
      have hpass := (passes_name path held scope group hname).append
        (.cons halias (.one (htail _)))
      exact .through hfree hpass (.renamed _ short.text)

/-- The word for what is imported, in front of a name. -/
theorem Optionally.meets {word ts : List Token} (hword : Optionally Token.IsImportKind word)
    (hw : w.mode = .importName held group [])
    (hhead : ∃ next more, ts = next :: more ∧ (next.kind = .ident ∨ next.isPunct "\\" = true))
    {behind : Mode → Prop} (hts : Meets path held w ts behind) :
    Meets path held w (word ++ ts) behind := by
  cases hword with
  | none => exact hts
  | @some t ht =>
      obtain ⟨next, more, rfl, hnext⟩ := hhead
      obtain ⟨scope, mode⟩ := w
      subst hw
      exact .word (List.nil_append _).symm (fun _ hu => absurd hu List.not_mem_nil) ht hnext rfl

/-- Behind a name, what a sign does is settled by what follows the name. -/
theorem Mode.BehindName.step {scope : Scope} {mode : Mode} (h : mode.BehindName held group)
    {t : Token} (ht : t.IsStop) :
    ∃ target short, Walk.step path ⟨scope, mode⟩ t =
      stepImportTail path scope held group target short t := by
  cases h with
  | @plain parts hne =>
      refine ⟨group ++ nameOf parts, defaultAlias (group ++ nameOf parts), ?_⟩
      simp only [Walk.step, ht.continueName?, endImportName, if_neg hne,
        if_neg (ht.kind_ne (by decide : TokenKind.kwAs ≠ .punct))]
  | renamed target short => exact ⟨target, short, rfl⟩

/-- A comma behind a name leads to the next one. -/
theorem meets_comma (hw : w.mode.BehindName held group) {t : Token} (ht : t.isPunct "," = true) :
    Meets path held w [t] (· = .importName held group []) := by
  obtain ⟨target, short, hstep⟩ := hw.step path held (isStop_of_isPunct ht (by decide))
  refine .sign ht (w.scope.addImport short target) rfl (hstep.trans ?_)
  simp only [stepImportTail, isPunct_of_isPunct ht]
  rfl

/-- A semicolon ends the statement, whatever of it has been read. -/
theorem meets_semicolon (hw : w.ended path = (held, [])) {t : Token} (ht : t.isPunct ";" = true) :
    Meets path held w [t] (· = .scanning held) := by
  refine .sign ht w.finalScope rfl ((step_ends (ends_of_semicolon ht) path w).trans ?_)
  rw [hw, scan_semicolon ht]
  rfl

theorem Mode.BehindName.ended {scope : Scope} {mode : Mode} (h : mode.BehindName held group) :
    Walk.ended path ⟨scope, mode⟩ = (held, []) := by
  cases h with
  | plain => rfl
  | renamed => rfl

/-- The start of a group. -/
theorem meets_groupStart (hw : w.mode = .importName held group []) {front : List Token}
    (hfront : SpellsName true front) {slash opening : Token} (hslash : slash.isPunct "\\" = true)
    (hopening : opening.isPunct "\x7b" = true) :
    Meets path held w (front ++ [slash, opening])
      (fun mode => ∃ start, mode = .importName held start []) := by
  obtain ⟨scope, mode⟩ := w
  subst hw
  have hstop := isStop_of_isPunct hopening (by decide)
  have hspells := hfront.concat hslash
  have hne : nameOf ((front ++ [slash]).map (·.text)) ≠ "" := by
    have hsign : slash.text = "\\" := by
      simp only [Token.isPunct, Bool.and_eq_true, beq_iff_eq] at hslash
      exact hslash.2
    rw [List.map_append, List.map_singleton, hsign, nameOf, String.join_append]
    exact fun hempty => absurd (String.append_eq_empty_iff.mp hempty).2 (by decide)
  have hname : Meets path held ⟨scope, .importName held group []⟩ (front ++ [slash])
      (Mode.BehindName held group) :=
    .through (fun t ht => (hspells.idle t ht).2) (passes_name path held scope group hspells)
      (.plain hne)
  have hassoc : front ++ [slash, opening] = front ++ [slash] ++ [opening] := by
    rw [List.append_assoc, List.singleton_append]
  rw [hassoc]
  refine hname.append fun next hnext => ?_
  obtain ⟨target, short, hstep⟩ := hnext.step path held hstop
  refine .sign hopening next.scope ⟨groupStart target, rfl⟩ (hstep.trans ?_)
  exact if_pos hopening

/-- The end of a group, with a comma or without. -/
theorem meets_groupEnd (hw : w.mode.BehindName held group) {comma : List Token}
    (hcomma : Optionally (·.isPunct "," = true) comma) {closing semicolon : Token}
    (hclosing : closing.isPunct "\x7d" = true) (hend : semicolon.isPunct ";" = true) :
    Meets path held w (comma ++ [closing, semicolon]) (· = .scanning held) := by
  have hstop := isStop_of_isPunct hclosing (by decide)
  have hlast : ∀ next : Walk, next.mode = .groupEnd held ∨ next.mode = .scanning held →
      Meets path held next [semicolon] (· = .scanning held) := by
    rintro ⟨scope, mode⟩ hnext
    refine meets_semicolon path held ?_ hend
    rcases hnext with rfl | rfl
    · rfl
    · rfl
  cases hcomma with
  | none =>
      obtain ⟨target, short, hstep⟩ := hw.step path held hstop
      have hclose : Meets path held w [closing] (· = .groupEnd held) := by
        refine .sign hclosing (w.scope.addImport short target) rfl (hstep.trans ?_)
        simp only [stepImportTail, isPunct_of_isPunct hclosing]
        rfl
      exact hclose.append fun next hnext => hlast next (.inl hnext)
  | @some t ht =>
      -- the reader gives up at the sign, as it is not a name
      have hclose : ∀ next : Walk, next.mode = .importName held group [] →
          Meets path held next [closing] (· = .scanning held) := by
        rintro ⟨scope, mode⟩ rfl
        refine .sign hclosing scope rfl ?_
        have hnone : nameOf [] = "" := rfl
        simp only [Walk.step, hstop.continueName?, endImportName, if_pos hnone, scan, hstop.kind]
      refine (meets_comma path held hw ht).append fun next hnext => ?_
      exact (hclose next hnext).append fun last hscanning => hlast last (.inr hscanning)

/-- **The names of a statement keep the comment up to the first word for what is imported.** -/
theorem Members.meets {ts : List Token} (h : Members ts) (hw : w.mode = .importName held group []) :
    Meets path held w ts (Mode.BehindName held group) := by
  induction h generalizing w with
  | one hword hname => exact hword.meets path held hw hname.exists_head (hname.meets path held hw)
  | more hword hname hcomma _ ih =>
      have hfirst := hword.meets path held hw hname.exists_head (hname.meets path held hw)
      refine hfirst.append fun next hnext => ?_
      exact (meets_comma path held hnext hcomma).append fun _ => ih

/-- **A statement keeps the comment up to its first word for what is imported.** -/
theorem ImportsAnything.meets {ts : List Token} (h : ImportsAnything ts)
    (hw : w.mode = .importName held "" []) : Meets path held w ts (· = .scanning held) := by
  cases h with
  | list hmembers hend =>
      refine (hmembers.meets path held hw).append fun next hnext => ?_
      exact meets_semicolon path held (hnext.ended path held) hend
  | @group slash opening closing semicolon word front us comma hword hfront htext hslash hopening
      hmembers hcomma hclosing hend =>
      obtain ⟨first, more, rfl, hfirst⟩ := hfront.exists_head htext
      refine hword.meets path held hw ⟨first, _, rfl, hfirst⟩ ?_
      refine (meets_groupStart path held hw hfront hslash hopening).append ?_
      rintro next ⟨start, hnext⟩
      refine (hmembers.meets path held hnext).append fun last hlast => ?_
      exact meets_groupEnd path held hlast hcomma hclosing hend

end Parts

/-! ## 5. The first word -/

/-- What the first word lets go of a comment: a function with a name takes it, everything else lets
    it go on its own. -/
def Held.atImportKind (path : String) (scope : Scope) (h : Held) (word next : Token) : Attachment :=
  if word.kind = .kwFunction ∧ next.kind = .ident then h.atMethod path scope next.text
  else h.unattached path scope

/-- **The first word lets the comment go**, as it is read as ordinary material. -/
theorem read_word (path : String) (scope : Scope) (h : Held) (group : String) {word next : Token}
    (hword : word.IsImportKind) (hnext : next.kind = .ident ∨ next.isPunct "\\" = true) :
    Walk.read path ⟨scope, .importName (some h) group []⟩ [word, next] =
      (⟨scope, .scanning none⟩, [h.atImportKind path scope word next]) := by
  have hnone : nameOf [] = "" := rfl
  have hstop : continueName? [] word = none := by
    rcases hword with hword | ⟨hword, -⟩ <;> simp [continueName?, Token.isPunct, hword]
  have hfirst : Walk.step path ⟨scope, .importName (some h) group []⟩ word =
      scan path scope (some h) word := by
    simp only [Walk.step, hstop, endImportName, if_pos hnone]
  rw [Walk.read, hfirst]
  rcases hword with hword | ⟨hword, -⟩
  · have hopen : scan path scope (some h) word = (⟨scope, .methodName h false⟩, []) := by
      simp only [scan, hword]
      rfl
    rw [hopen, Outcome.behind_nil, Held.atImportKind]
    rcases hnext with hnext | hnext
    · have hsign : next.isPunct "&" = false := by simp [Token.isPunct, hnext]
      simp [Walk.read, Walk.step, hword, hnext, hsign, Outcome.behind]
    · have hsign : next.isPunct "&" = false := isPunct_of_isPunct hnext
      have hkind := kind_of_isPunct hnext
      simp [Walk.read, Walk.step, hword, hkind, hsign, scan, Outcome.behind, Outcome.after]
  · have hopen : scan path scope (some h) word =
        (⟨scope, .scanning none⟩, [h.unattached path scope]) := by
      simp only [scan, hword]
      rfl
    have hidle : next.IsIdle :=
      hnext.elim (isIdle_of_kind · (by decide)) isIdle_of_isPunct
    have hquiet := passes_idle path scope (List.forall_mem_singleton.mpr hidle)
    rw [hopen, hquiet, Held.atImportKind, if_neg fun hfunction => ?_]
    · rfl
    · rw [hword] at hfunction
      exact absurd hfunction.1 (by decide)

/-! ## 6. The main statement -/

theorem ends_of_use {use : Token} (huse : use.kind = .kwUse) : use.Ends where
  sign s _ := by simp only [Token.isPunct, huse, reduceCtorEq, decide_false, Bool.false_and]
  word k hk h := by
    rw [← h, huse] at hk
    exact absurd hk (by decide)
  modifier := by simp [isModifier, huse, TokenKind.isVisibility]
  material := by simp [isTypeMaterial, huse]

/-- The word that opens a statement ends what is being read, and keeps the comment. -/
theorem step_use (path : String) {w : Walk} {held : Option Held} (hheld : w.ended path = (held, []))
    {use : Token} (huse : use.kind = .kwUse) :
    w.step path use = (⟨w.finalScope, .importName held "" []⟩, []) := by
  rw [step_ends (ends_of_use huse), hheld]
  simp only [scan, huse, Outcome.behind_nil]

/-- **A comment is held over imports of classes, and no others.** The pass holds a comment, whatever
    it is reading, and reads a statement that imports classes, functions or constants, one by one,
    in lists or in groups, under aliases or not. Behind the statement the comment is still held, and
    nothing has been let go, if and only if no word for functions or constants stands in it. The
    first such word lets the comment go: at a method, if it is the word for functions and an
    identifier follows, and on its own otherwise. The pass with a cursor does the same. -/
theorem held_over_imports_of_classes (path : String) (w : Walk) (h : Held) (use : Token)
    (ts : List Token) (hheld : w.ended path = (some h, [])) (huse : use.kind = .kwUse)
    (hts : ImportsAnything ts) :
    ((∃ scope, w.read path (use :: ts) = (⟨scope, .scanning (some h)⟩, [])) ↔
        ∀ t ∈ ts, ¬t.IsImportKind) ∧
      ((∃ t ∈ ts, t.IsImportKind) → ∃ front word next back scope,
        ts = front ++ word :: next :: back ∧ (∀ t ∈ front, ¬t.IsImportKind) ∧
        word.IsImportKind ∧
        w.read path (use :: ts) =
          (⟨scope, .scanning none⟩, [h.atImportKind path scope word next])) ∧
      ∀ isStatic rest, ∃ last,
        Pass.run path ⟨w.finalScope, .scanning, some h, isStatic⟩ (use :: ts ++ rest) =
          .ok (last, (w.read path (use :: ts)).2 ++
            ((w.read path (use :: ts)).1.run path rest).2) := by
  have hopen : w.read path (use :: ts) =
      Walk.read path ⟨w.finalScope, .importName (some h) "" []⟩ ts := by
    rw [Walk.read, step_use path hheld huse, Outcome.behind_nil]
  have hopenHere : Walk.read path ⟨w.finalScope, .scanning (some h)⟩ (use :: ts) =
      w.read path (use :: ts) := by
    rw [hopen, Walk.read, step_use path rfl huse, Outcome.behind_nil]
    rfl
  have hpass : ∀ isStatic rest, ∃ last,
      Pass.run path ⟨w.finalScope, .scanning, some h, isStatic⟩ (use :: ts ++ rest) =
        .ok (last, (w.read path (use :: ts)).2 ++
          ((w.read path (use :: ts)).1.run path rest).2) := by
    intro isStatic rest
    rw [← hopenHere]
    exact Pass.run_append path w.finalScope (some h) isStatic (use :: ts) rest
  have hmeets : Meets path (some h) ⟨w.finalScope, .importName (some h) "" []⟩ ts
      (· = .scanning (some h)) := hts.meets path (some h) rfl
  cases hmeets with
  | @through next hfree hnext hmode =>
      obtain ⟨scope, mode⟩ := next
      have hread : w.read path (use :: ts) = (⟨scope, .scanning (some h)⟩, []) :=
        hopen.trans (hnext.trans (by rw [← hmode]))
      refine ⟨iff_of_true ⟨scope, hread⟩ hfree, fun ⟨t, ht, hword⟩ => ?_, hpass⟩
      exact absurd hword (hfree t ht)
  | @word front back word next scope group hsplit hfree hword hnext hfront =>
      have hidle : ∀ t ∈ back, t.IsIdle := fun t ht => hts.idle t (by
        rw [hsplit]
        exact List.mem_append_right _ (List.mem_cons_of_mem _ (List.mem_cons_of_mem _ ht)))
      have hback : ts = front ++ ([word, next] ++ back) := hsplit
      have hread : w.read path (use :: ts) =
          (⟨scope, .scanning none⟩, [h.atImportKind path scope word next]) := by
        rw [hopen, hback, Walk.read_append, hfront, Outcome.behind_nil, Walk.read_append,
          read_word path scope h group hword hnext, passes_idle path scope hidle]
        rfl
      have hmem : word ∈ ts := by
        rw [hsplit]
        exact List.mem_append_right _ List.mem_cons_self
      refine ⟨iff_of_false ?_ fun hall => hall word hmem hword, fun _ => ?_, hpass⟩
      · rintro ⟨other, hkept⟩
        rw [hread] at hkept
        cases hkept
      · exact ⟨front, word, next, back, scope, hsplit, hfree, hword, hread⟩

/-- A group with a class and a function, behind a comment that is meant for a class. The function
    takes it. -/
theorem held_over_imports_ends_at_function :
    Walk.ended "pets.php" ⟨.initial, .scanning (some ⟨"/** pet */", 2⟩)⟩ =
        (some ⟨"/** pet */", 2⟩, []) ∧
      ¬∃ scope, Walk.read "pets.php" ⟨.initial, .scanning (some ⟨"/** pet */", 2⟩)⟩
          [⟨.kwUse, "use", 3⟩, ⟨.ident, "App", 3⟩, ⟨.punct, "\\", 3⟩, ⟨.punct, "\x7b", 3⟩,
            ⟨.ident, "Db", 3⟩, ⟨.punct, ",", 3⟩, ⟨.kwFunction, "function", 3⟩,
            ⟨.ident, "boot", 3⟩, ⟨.punct, "\x7d", 3⟩, ⟨.punct, ";", 3⟩] =
        (⟨scope, .scanning (some ⟨"/** pet */", 2⟩)⟩, []) := by
  have hmembers : Members ([⟨.ident, "Db", 3⟩] ++ ⟨.punct, ",", 3⟩ ::
      ([⟨.kwFunction, "function", 3⟩] ++ [⟨.ident, "boot", 3⟩])) :=
    .more .none (.plain (.word rfl (.nil false)) (by decide)) rfl
      (.one (.some (.inl rfl)) (.plain (.word rfl (.nil false)) (by decide)))
  have himports := @ImportsAnything.group ⟨.punct, "\\", 3⟩ ⟨.punct, "\x7b", 3⟩
    ⟨.punct, "\x7d", 3⟩ ⟨.punct, ";", 3⟩ [] [⟨.ident, "App", 3⟩] _ [] .none
    (.word rfl (.nil false)) (by decide) rfl rfl hmembers .none rfl rfl
  refine ⟨rfl, fun hkept => ?_⟩
  have hfree := (held_over_imports_of_classes "pets.php" _ ⟨"/** pet */", 2⟩ ⟨.kwUse, "use", 3⟩ _
    rfl rfl himports).1.mp hkept
  exact hfree ⟨.kwFunction, "function", 3⟩ (by decide) (.inl rfl)

end Marginalia.Php
