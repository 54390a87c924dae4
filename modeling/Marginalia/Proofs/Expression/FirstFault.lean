import Marginalia.Proofs.Expression.Spelling

/-!
# Where a text stops being an expression

A text that is no expression is refused at one place. This module says what that place is:

* `IsSentence`, `Viable`: sentences of the grammar, and what can be continued to one. Whatever the
  reader has read can be (`Behind.viable`), and with a word that has no step it cannot
  (`not_viable_of_stuck`). So the reader stops at the first word that no sentence can have there;
* `Cut`: the words that are cut off the front of a text, before something else;
* `FirstFault`: the fault stands behind words that can be continued, and either the next word cannot
  stand there or no word does;
* `parse_eq_error`: a text is refused with its first fault, or because it ends too early.
-/

namespace Marginalia

/-! ## 1. Positions -/

namespace Position

/-- The position behind a text: its line is one more than the line feeds in it, and its column is
    one more than the characters behind the last of them. -/
def behind (before : List Char) : Position :=
  ⟨before.count '\n' + 1, (before.reverse.takeWhile (· ≠ '\n')).length + 1⟩

theorem behind_concat (before : List Char) (c : Char) :
    Position.behind (before ++ [c]) = (Position.behind before).after c := by
  unfold Position.behind Position.after
  rw [List.count_append, List.reverse_concat]
  by_cases hc : c = '\n'
  · subst hc
    rw [if_pos rfl, List.takeWhile_cons_of_neg (by decide), List.count_singleton_self]
    rfl
  · rw [if_neg hc, List.takeWhile_cons, if_pos (decide_eq_true hc), List.length_cons,
      List.count_singleton, if_neg (by simpa using hc)]

end Position

end Marginalia

namespace Marginalia.Expression

/-! ## 2. Beginnings of sentences -/

/-- A sentence of the grammar: words that are spelled as their terminals are, with a derivation. -/
def IsSentence (words : List Word) : Prop :=
  (∀ w ∈ words, w.Spelled) ∧ ∃ d : Derivation .expression, d.words = words

/-- **The words begin a sentence**: some more words make one of them. -/
def Viable (words : List Word) : Prop := ∃ more, IsSentence (words ++ more)

/-- What closes all open brackets, from the inside out. -/
def closings (frames : List Frame) : List Word := frames.map (·.bracket.enclosure.closing)

theorem spelled_closing (e : Enclosure) : e.closing.Spelled := by
  cases e <;> exact rfl

theorem spelled_closings (frames : List Frame) : ∀ w ∈ closings frames, w.Spelled := by
  intro w hw
  obtain ⟨f, -, rfl⟩ := List.mem_map.mp hw
  exact spelled_closing _

/-- Some name. -/
def Word.someName : Word := ⟨.name, "x"⟩

theorem Word.spelled_someName : Word.someName.Spelled := by
  have hfinds : Finds nameLexeme ['x'] (some ['x']) := name?_finds ['x']
  exact hfinds.1

/-- Some words are left with which the reader comes to a state in which the text may end. -/
def State.CanEnd (s : State) : Prop :=
  ∃ more, (∀ w ∈ more, w.Spelled) ∧ ∃ last tree, s.read more = some last ∧ last.tree? = some tree

theorem State.CanEnd.step {s next : State} {w : Word} (h : next.CanEnd) (hw : w.Spelled)
    (hstep : s.stepWord? w = some next) : s.CanEnd := by
  obtain ⟨more, hmore, last, tree, hread, htree⟩ := h
  refine ⟨w :: more, List.forall_mem_cons.mpr ⟨hw, hmore⟩, last, tree, ?_, htree⟩
  rw [State.read_cons hstep]
  exact hread

theorem stepWord?_item (b : Bracket) (items : List Item) (frames : List Frame) :
    (State.mk .item (⟨b, items, none⟩ :: frames)).stepWord? b.enclosure.closing =
      some (complete (b.tree items) frames) :=
  afterItem?_closing b items none frames

/-- Behind a value the open brackets can be closed, one after the other. -/
theorem canEnd_complete (tree : Tree) (frames : List Frame) : (complete tree frames).CanEnd := by
  refine ⟨closings frames, spelled_closings frames, ?_⟩
  induction frames generalizing tree with
  | nil => exact ⟨_, tree, rfl, rfl⟩
  | cons f frames ih =>
      obtain ⟨last, whole, hread, hwhole⟩ :=
        ih (f.bracket.tree (f.items ++ [⟨f.label, tree⟩]))
      refine ⟨last, whole, ?_, hwhole⟩
      show State.read (State.mk .item _) (f.bracket.enclosure.closing :: closings frames) = _
      rw [State.read_cons (stepWord?_item f.bracket _ frames)]
      exact hread

theorem Stands.canEnd {tree : Tree} {f : Frame} {frames : List Frame} {s : State}
    (h : Stands tree (f :: frames) s) : s.CanEnd := by
  refine (canEnd_complete (f.bracket.tree (f.items ++ [⟨f.label, tree⟩])) frames).step
    (spelled_closing f.bracket.enclosure) ?_
  rw [h.step (Derivation.endsItem_closing _), afterItem?_closing]

/-- **From every state that the reader comes to, it can come to an end.** -/
theorem Behind.canEnd {s : State} {words : List Word} (h : Behind s words) : s.CanEnd := by
  -- An annotation that has only its sign still needs a name.
  have hnamed : ∀ (name : String) (frames : List Frame),
      (State.mk (.named name) frames).CanEnd := by
    intro name frames
    cases frames with
    | nil => exact ⟨[], nofun, _, .bare name, rfl, rfl⟩
    | cons f frames => exact Stands.canEnd (.named rfl)
  have hhead : ∀ frames : List Frame, (State.mk .head frames).CanEnd := fun frames =>
    (hnamed "x" frames).step Word.spelled_someName rfl
  cases h with
  | start => exact (hhead []).step (w := .at) rfl rfl
  | head h => exact hhead _
  | named h name => exact hnamed name _
  | @opened b items frames _ h =>
      refine (canEnd_complete (b.tree items) frames).step (spelled_closing b.enclosure) ?_
      show (close? b.enclosure.closing.terminal _).or _ = _
      rw [close?_closing]
      rfl
  | atom h l text => exact Stands.canEnd (.atom rfl)
  | @labelled f frames _ h =>
      have hleaf := (stepWord?_leaf frames f .name "x").2
      exact (canEnd_complete (.atom ⟨.name, "x"⟩) (f :: frames)).step Word.spelled_someName hleaf
  | @item b items frames _ h item =>
      exact (canEnd_complete (b.tree (items ++ [item.meaning])) frames).step
        (spelled_closing b.enclosure) (stepWord?_item b _ frames)
  | done d => exact ⟨[], nofun, _, d.meaning, rfl, rfl⟩

/-- **What the reader has read begins a sentence.** -/
theorem Behind.viable {s : State} {words : List Word} (h : Behind s words)
    (hwords : ∀ w ∈ words, w.Spelled) : Viable words := by
  obtain ⟨more, hmore, last, tree, hread, htree⟩ := h.canEnd
  obtain ⟨d, hd, -⟩ := (h.read hmore hread).derivation htree
  exact ⟨more, fun w hw => (List.mem_append.mp hw).elim (hwords w) (hmore w), d, hd⟩

/-- **No sentence goes on with a word for which the reader has no step.** -/
theorem not_viable_of_stuck {s : State} {words : List Word}
    (hread : State.initial.read words = some s) {w : Word} (hw : s.stepWord? w = none) :
    ¬Viable (words ++ [w]) := by
  rintro ⟨more, -, d, hd⟩
  have htree := treeOf_words d
  have hstuck : s.read (w :: more) = none := by
    rw [State.read, hw]
    rfl
  rw [treeOf, hd, List.append_assoc, State.read_append, hread, Option.bind_some,
    List.singleton_append, hstuck] at htree
  cases htree

/-- A run that stops has come to a token without a step. -/
theorem State.run_eq_error {s : State} {ts : List Token} {t : Token} (h : s.run ts = .error t) :
    ∃ us vs last, ts = us ++ t :: vs ∧ s.read (us.map Token.word) = some last ∧
      last.stepWord? t.word = none := by
  induction ts generalizing s with
  | nil => cases h
  | cons u ts ih =>
      rw [run, step?_eq] at h
      cases hstep : s.stepWord? u.word with
      | none =>
          rw [hstep] at h
          cases h
          exact ⟨[], ts, s, rfl, rfl, hstep⟩
      | some next =>
          rw [hstep] at h
          obtain ⟨us, vs, last, rfl, hread, hlast⟩ := ih h
          refine ⟨u :: us, vs, last, rfl, ?_, hlast⟩
          rw [List.map_cons, State.read_cons hstep]
          exact hread

/-! ## 3. The front of a text -/

/-- **The words are cut off the front of a text**, before `after`: gaps are skipped, and every word
    is the longest lexeme at its place. -/
inductive Cut (after : List Char) : List Char → List Word → Prop
  | nil : Cut after [] []
  | skip {c : Char} {before : List Char} {words : List Word} (hc : isSkipped c = true)
      (h : Cut after before words) : Cut after (c :: before) words
  | word {t : Terminal} {w before : List Char} {words : List Word} (hw : w ∈ lexemes t)
      (hlong : ∀ t' v, v ∈ lexemes t' → v <+: w ++ (before ++ after) → v.length ≤ w.length)
      (h : Cut after before words) : Cut after (w ++ before) (⟨t, String.ofList w⟩ :: words)

theorem Cut.spelled {before after : List Char} {words : List Word} (h : Cut after before words) :
    ∀ w ∈ words, w.Spelled := by
  induction h with
  | nil => exact nofun
  | skip _ _ ih => exact ih
  | @word t w _ _ hw _ _ ih =>
      refine List.forall_mem_cons.mpr ⟨?_, ih⟩
      show (String.ofList w).toList ∈ lexemes t
      rwa [String.toList_ofList]

/-- **A row of tokens is cut off the front of the text**, gaps behind it included, and the other
    tokens are those of the text behind that. The first characters of the text may belong to a token
    that has been cut already; `front` is what stands before the text. -/
theorem tokensFrom_split {us vs : List Token} (inside : Nat) (front text : List Char)
    (h : (tokensFrom inside (.behind front) text).1 = us ++ vs) :
    ∃ before after, text.drop inside = before ++ after ∧ Cut after before (us.map Token.word) ∧
      (∀ c ∈ after.head?, isSkipped c = false) ∧
      tokensFrom 0 (.behind (front ++ (text.take inside ++ before))) after =
        (vs, (tokensFrom inside (.behind front) text).2) := by
  induction text generalizing inside front us with
  | nil =>
      obtain ⟨rfl, rfl⟩ := List.append_eq_nil_iff.mp h.symm
      exact ⟨[], [], List.drop_nil, .nil, nofun, rfl⟩
  | cons c rest ih =>
      have hplace := Position.behind_concat front c
      cases inside with
      | succ more =>
          rw [tokensFrom, ← hplace] at h
          obtain ⟨before, after, hrest, hcut, hhead, htokens⟩ := ih more (front ++ [c]) h
          refine ⟨before, after, hrest, hcut, hhead, ?_⟩
          rw [List.append_assoc] at htokens
          rw [tokensFrom, ← hplace]
          exact htokens
      | zero =>
          by_cases hc : isSkipped c = true
          · rw [tokensFrom, if_pos hc, ← hplace] at h
            obtain ⟨before, after, hrest, hcut, hhead, htokens⟩ := ih 0 (front ++ [c]) h
            refine ⟨c :: before, after, congrArg (c :: ·) hrest, .skip hc hcut, hhead, ?_⟩
            rw [List.append_assoc] at htokens
            rw [tokensFrom, if_pos hc, ← hplace]
            exact htokens
          · have hhere : ∀ d ∈ (c :: rest).head?, isSkipped d = false := by
              rintro d ⟨⟩
              exact Bool.eq_false_iff.mpr hc
            cases us with
            | nil =>
                refine ⟨[], c :: rest, rfl, .nil, hhere, ?_⟩
                rw [List.take_zero, List.append_nil, List.append_nil]
                exact Prod.ext h rfl
            | cons u us =>
                rw [tokensFrom, if_neg hc] at h ⊢
                have hcuts := lexeme?_cuts (c :: rest)
                cases hlexeme : lexeme? (c :: rest) with
                | none =>
                    rw [hlexeme] at h
                    cases h
                | some cut =>
                    obtain ⟨t, w⟩ := cut
                    rw [hlexeme] at h hcuts
                    dsimp only at h ⊢
                    obtain ⟨hw, ⟨behind, hbehind⟩, hlong⟩ := hcuts
                    cases w with
                    | nil => exact absurd rfl (lexemes_ne_nil hw)
                    | cons d w =>
                        obtain ⟨rfl, rfl⟩ : d = c ∧ w ++ behind = rest := List.cons.inj hbehind
                        injection h with hu h
                        rw [List.length_cons, Nat.add_sub_cancel, ← hplace] at h ⊢
                        obtain ⟨before, after, hrest, hcut, hhead, htokens⟩ :=
                          ih w.length (front ++ [d]) h
                        rw [List.drop_left] at hrest
                        subst hrest
                        refine ⟨d :: w ++ before, after, ?_, ?_, hhead, ?_⟩
                        · rw [List.drop_zero, List.append_assoc]
                          rfl
                        · rw [List.map_cons, ← hu]
                          exact .word hw (fun t' v hv hfront => (hlong t' v hv hfront).2) hcut
                        · rw [List.take_left, List.append_assoc] at htokens
                          exact htokens

/-- A token in front of a text. -/
theorem tokensFrom_eq_cons {place : Position} {after : List Char} {t : Token} {vs : List Token}
    {ending : Ending} (hhead : ∀ c ∈ after.head?, isSkipped c = false)
    (h : tokensFrom 0 place after = (t :: vs, ending)) :
    t.place = place ∧ t.text.toList ∈ lexemes t.terminal ∧ t.text.toList <+: after ∧
      ∀ t' v, v ∈ lexemes t' → v <+: after → v.length ≤ t.text.toList.length := by
  cases after with
  | nil => cases h
  | cons c rest =>
      rw [tokensFrom, hhead c rfl, if_neg Bool.false_ne_true] at h
      have hcuts := lexeme?_cuts (c :: rest)
      cases hlexeme : lexeme? (c :: rest) with
      | none =>
          rw [hlexeme] at h
          cases h
      | some cut =>
          obtain ⟨terminal, w⟩ := cut
          rw [hlexeme] at h hcuts
          cases h
          obtain ⟨hw, hfront, hlong⟩ := hcuts
          dsimp only
          rw [String.toList_ofList]
          exact ⟨rfl, hw, hfront, fun t' v hv hv' => (hlong t' v hv hv').2⟩

/-- A character in front of a text that starts no token. -/
theorem tokensFrom_eq_stuck {place place' : Position} {after : List Char} {c : Char}
    (hhead : ∀ c ∈ after.head?, isSkipped c = false)
    (h : tokensFrom 0 place after = ([], .stuck c place')) :
    place' = place ∧ ∃ rest, after = c :: rest ∧ ∀ t v, v ∈ lexemes t → ¬v <+: after := by
  cases after with
  | nil => cases h
  | cons d rest =>
      rw [tokensFrom, hhead d rfl, if_neg Bool.false_ne_true] at h
      have hcuts := lexeme?_cuts (d :: rest)
      cases hlexeme : lexeme? (d :: rest) with
      | none =>
          rw [hlexeme] at h hcuts
          cases h
          exact ⟨rfl, rest, rfl, hcuts⟩
      | some cut =>
          rw [hlexeme] at h
          cases h

/-! ## 4. The first fault -/

/-- **What a fault says about a text**: it stands behind words that begin a sentence, and

    * the next word makes it impossible to go on, or
    * at a character that is not skipped, no terminal has a lexeme. -/
inductive FirstFault (text : List Char) : Fault → Prop
  | token {before after : List Char} {words : List Word} {next : Word}
      (split : text = before ++ after) (cut : Cut after before words) (viable : Viable words)
      (spelled : next.Spelled) (front : next.text.toList <+: after)
      (longest : ∀ t v, v ∈ lexemes t → v <+: after → v.length ≤ next.text.toList.length)
      (impossible : ¬Viable (words ++ [next])) :
      FirstFault text (.unexpectedToken next.terminal next.text (.behind before))
  | char {before rest : List Char} {c : Char} {words : List Word}
      (split : text = before ++ c :: rest) (cut : Cut (c :: rest) before words)
      (viable : Viable words) (gap : isSkipped c = false)
      (none : ∀ t v, v ∈ lexemes t → ¬v <+: c :: rest) :
      FirstFault text (.unexpectedChar c (.behind before))

theorem viable_of_read {words : List Word} (hwords : ∀ w ∈ words, w.Spelled) {s : State}
    (h : State.initial.read words = some s) : Viable words :=
  (Behind.start.read hwords h).viable hwords

/-- **A text is refused with its first fault**, unless it ends before a sentence does. -/
theorem parse_eq_error {text : List Char} {fault : Fault} (h : parse text = .error fault) :
    FirstFault text fault ∨ ∃ words last, Tokenised text words ∧
      State.initial.read words = some last ∧ last.tree? = none := by
  unfold parse at h
  generalize hcut : tokens text = cut at h
  obtain ⟨ts, ending⟩ := cut
  dsimp only at h
  cases hrun : State.initial.run ts with
  | error t =>
      rw [hrun] at h
      cases h
      obtain ⟨us, vs, last, rfl, hread, hstuck⟩ := State.run_eq_error hrun
      obtain ⟨before, after, htext, hwords, hhead, htokens⟩ :=
        tokensFrom_split 0 [] text (congrArg Prod.fst hcut)
      obtain ⟨hplace, hspelled, hfront, hlong⟩ := tokensFrom_eq_cons hhead htokens
      rw [hplace]
      have hnext : t.word.Spelled := hspelled
      exact .inl (.token htext hwords (viable_of_read hwords.spelled hread)
        hnext hfront hlong (not_viable_of_stuck hread hstuck))
  | ok last =>
      rw [hrun] at h
      have hread := (State.run_eq_ok_iff _ _ _).mp hrun
      cases ending with
      | stuck c place =>
          cases h
          obtain ⟨before, after, htext, hwords, hhead, htokens⟩ :=
            tokensFrom_split 0 [] text ((congrArg Prod.fst hcut).trans (List.append_nil ts).symm)
          have hending : (tokensFrom 0 (.behind []) text).2 = .stuck c place :=
            congrArg Prod.snd hcut
          rw [hending] at htokens
          obtain ⟨rfl, rest, rfl, hnone⟩ := tokensFrom_eq_stuck hhead htokens
          exact .inl (.char htext hwords (viable_of_read hwords.spelled hread) (hhead c rfl) hnone)
      | complete =>
          cases htree : last.tree? with
          | some tree =>
              dsimp only at h
              rw [htree] at h
              cases h
          | none =>
              refine .inr ⟨ts.map Token.word, last, (tokens_eq_iff text _).mp ?_, hread, htree⟩
              rw [hcut]
              exact ⟨rfl, rfl⟩

end Marginalia.Expression
