import Marginalia.Proofs.Expression.Grammar
import Marginalia.Proofs.Expression.Terminal

/-!
# The reader accepts exactly the grammar

The reader of annotation expressions takes one token after another and keeps a stack of open
brackets. This module ties its runs to derivations:

* `reads`: over the words of a derivation the reader comes to a state that stands behind what the
  derivation means, whatever brackets were open before;
* `Behind`: what a state says about the words that have been read. Each step keeps it
  (`Behind.step`), so it holds after every run (`Behind.read`), and where a text may end it is a
  derivation of the whole text (`Behind.derivation`).

So the reader makes a tree of words exactly if an annotation that means the tree derives them
(`treeOf_eq_some_iff`).
-/

namespace Marginalia.Expression

/-! ## 1. Reading words -/

/-- The state after one more word. -/
def State.stepWord? (s : State) (w : Word) : Option State := s.step? ⟨w.terminal, w.text, .start⟩

theorem State.step?_eq (s : State) (t : Token) : s.step? t = s.stepWord? t.word := rfl

/-- The state after words. -/
def State.read (s : State) : List Word → Option State
  | [] => some s
  | w :: more => (s.stepWord? w).bind fun next => next.read more

theorem State.read_append (s : State) (u v : List Word) :
    s.read (u ++ v) = (s.read u).bind fun next => next.read v := by
  induction u generalizing s with
  | nil => rfl
  | cons w u ih =>
      show (s.stepWord? w).bind _ = ((s.stepWord? w).bind _).bind _
      cases s.stepWord? w with
      | none => rfl
      | some next => exact ih next

theorem State.read_cons {s next : State} {w : Word} (h : s.stepWord? w = some next)
    (more : List Word) : s.read (w :: more) = next.read more := by
  rw [read, h]
  rfl

theorem State.run_eq_ok_iff (s last : State) (ts : List Token) :
    s.run ts = .ok last ↔ s.read (ts.map Token.word) = some last := by
  induction ts generalizing s with
  | nil => exact ⟨fun h => congrArg some (Except.ok.inj h), fun h => congrArg _ (Option.some.inj h)⟩
  | cons t ts ih =>
      rw [run, List.map_cons, read, step?_eq]
      cases s.stepWord? t.word with
      | none => exact ⟨nofun, nofun⟩
      | some next => exact ih next

/-! ## 2. Derivations are read -/

/-- The list that a bracket opens. -/
def Bracket.enclosure : Bracket → Enclosure
  | .arguments _ => .arguments
  | .array => .array

theorem Bracket.closer_eq (b : Bracket) : b.closer = b.enclosure.closing.terminal := by
  cases b <;> rfl

theorem Item.eta (i : Item) : Item.mk i.label i.value = i := by
  cases i
  rfl

/-- The state stands behind a whole value: the value has been taken, or it could still turn out to
    be the beginning of something longer. -/
inductive Stands (tree : Tree) (frames : List Frame) : State → Prop
  | complete : Stands tree frames (complete tree frames)
  | named {name : String} (h : tree = .bare name) : Stands tree frames ⟨.named name, frames⟩
  | atom {a : Atom} (h : tree = .atom a) : Stands tree frames ⟨.atom a, frames⟩

/-- No word that stands behind an item makes an atom a label. -/
theorem Bracket.isLabel_of_endsItem (b : Bracket) (a : Atom) {t : Terminal}
    (h : Derivation.endsItem t = true) : b.isLabel a t = false := by
  cases t with
  | comma | rpar | rbrace =>
      cases b with
      | arguments name =>
          show (decide _ && false) = false
          exact Bool.and_false _
      | array => rfl
  | _ => cases h

/-- With a word behind it that ends an item, the value is taken. -/
theorem Stands.step {tree : Tree} {f : Frame} {frames : List Frame} {s : State}
    (h : Stands tree (f :: frames) s) {w : Word} (hw : Derivation.endsItem w.terminal = true) :
    s.stepWord? w = afterItem? w.terminal
      (⟨f.bracket, f.items ++ [⟨f.label, tree⟩], none⟩ :: frames) := by
  cases h with
  | complete => rfl
  | named h =>
      subst h
      have hlpar : w.terminal ≠ .lpar := by
        intro heq
        rw [heq] at hw
        cases hw
      show (if w.terminal = .lpar then _ else _) = _
      rw [if_neg hlpar]
      rfl
  | atom h =>
      subst h
      show (if f.bracket.isLabel _ w.terminal = true then _ else _) = _
      rw [f.bracket.isLabel_of_endsItem _ hw, if_neg Bool.false_ne_true]
      rfl

theorem afterItem?_comma (f : Frame) (frames : List Frame) :
    afterItem? .comma (f :: frames) = some ⟨.opened, f :: frames⟩ := rfl

theorem close?_closing (b : Bracket) (items : List Item) (label : Option Atom)
    (frames : List Frame) :
    close? b.enclosure.closing.terminal (⟨b, items, label⟩ :: frames) =
      some (complete (b.tree items) frames) := by
  rw [close?, b.closer_eq, if_pos rfl]

theorem afterItem?_closing (b : Bracket) (items : List Item) (label : Option Atom)
    (frames : List Frame) :
    afterItem? b.enclosure.closing.terminal (⟨b, items, label⟩ :: frames) =
      some (complete (b.tree items) frames) := by
  have hcomma : b.enclosure.closing.terminal ≠ .comma := by cases b <;> exact nofun
  rw [afterItem?, if_neg hcomma, close?_closing]

/-- How the reader takes the words of a derivation, whatever brackets are open. -/
def Reads : (s : Nonterminal) → s.Meaning → List Word → Prop
  | .expression, tree, words => ∃ rest, words = .at :: rest ∧ ∀ frames, ∃ s,
      (State.mk .head frames).read rest = some s ∧
        (s = complete tree frames ∨ ∃ name, tree = .bare name ∧ s = ⟨.named name, frames⟩)
  | .plain, tree, words => ∀ f frames, ∀ mode ∈ [Mode.opened, Mode.labelled], ∃ s,
      (State.mk mode (f :: frames)).read words = some s ∧ Stands tree (f :: frames) s
  | .list e, items, words => ∃ rest, words = e.opening :: rest ∧
      ∀ b : Bracket, b.enclosure = e → ∀ frames,
        (State.mk .opened (⟨b, [], none⟩ :: frames)).read rest =
          some (complete (b.tree items) frames)
  | .items e, items, words => ∀ b : Bracket, b.enclosure = e → ∀ before frames trailing,
      (State.mk .opened (⟨b, before, none⟩ :: frames)).read (words ++ e.ending trailing) =
        some (complete (b.tree (before ++ items)) frames)
  | .item e, item, words => ∀ b : Bracket, b.enclosure = e → ∀ before frames, ∃ s,
      (State.mk .opened (⟨b, before, none⟩ :: frames)).read words = some s ∧
        Stands item.value (⟨b, before, item.label⟩ :: frames) s

theorem stepWord?_at (frames : List Frame) (f : Frame) {mode : Mode}
    (h : mode ∈ [Mode.opened, Mode.labelled]) :
    (State.mk mode (f :: frames)).stepWord? .at = some ⟨.head, f :: frames⟩ := by
  rcases List.mem_pair.mp h with rfl | rfl
  · obtain ⟨b, items, label⟩ := f
    cases b <;> rfl
  · rfl

theorem stepWord?_lbrace (frames : List Frame) (f : Frame) {mode : Mode}
    (h : mode ∈ [Mode.opened, Mode.labelled]) :
    (State.mk mode (f :: frames)).stepWord? Enclosure.array.opening =
      some ⟨.opened, ⟨.array, [], none⟩ :: f :: frames⟩ := by
  rcases List.mem_pair.mp h with rfl | rfl
  · obtain ⟨b, items, label⟩ := f
    cases b <;> rfl
  · rfl

theorem stepWord?_leaf (frames : List Frame) (f : Frame) (l : Leaf) (text : String) :
    (State.mk .opened (f :: frames)).stepWord? ⟨l.terminal, text⟩ =
        some ⟨.atom ⟨l.terminal, text⟩, f :: frames⟩ ∧
      (State.mk .labelled (f :: frames)).stepWord? ⟨l.terminal, text⟩ =
        some (complete (.atom ⟨l.terminal, text⟩) (f :: frames)) := by
  obtain ⟨b, items, label⟩ := f
  cases b <;> cases l <;> exact ⟨rfl, rfl⟩

/-- **The reader takes the words of every derivation.** -/
theorem reads {s : Nonterminal} (d : Derivation s) : Reads s d.meaning d.words := by
  induction d with
  | bare name => exact ⟨_, rfl, fun frames => ⟨_, rfl, .inr ⟨name, rfl, rfl⟩⟩⟩
  | applied name arguments ih =>
      obtain ⟨rest, hwords, hread⟩ := ih
      refine ⟨_, rfl, fun frames => ⟨_, ?_, .inl rfl⟩⟩
      rw [hwords]
      exact hread (.arguments name) rfl frames
  | nested a ih =>
      obtain ⟨rest, hwords, hread⟩ := ih
      intro f frames mode hmode
      obtain ⟨s, hs, hcases⟩ := hread (f :: frames)
      refine ⟨s, ?_, ?_⟩
      · rw [Derivation.words, hwords, State.read_cons (stepWord?_at frames f hmode)]
        exact hs
      · rcases hcases with rfl | ⟨name, hname, rfl⟩
        · exact .complete
        · exact .named hname
  | array entries ih =>
      obtain ⟨rest, hwords, hread⟩ := ih
      intro f frames mode hmode
      refine ⟨_, ?_, .complete⟩
      rw [Derivation.words, hwords, State.read_cons (stepWord?_lbrace frames f hmode)]
      exact hread .array rfl (f :: frames)
  | leaf l text =>
      intro f frames mode hmode
      obtain ⟨hopened, hlabelled⟩ := stepWord?_leaf frames f l text
      rcases List.mem_pair.mp hmode with rfl | rfl
      · exact ⟨_, State.read_cons hopened [], .atom rfl⟩
      · exact ⟨_, State.read_cons hlabelled [], .complete⟩
  | empty e =>
      refine ⟨_, rfl, fun b hb frames => ?_⟩
      subst hb
      refine State.read_cons ?_ []
      show (close? b.enclosure.closing.terminal _).or _ = _
      rw [close?_closing]
      rfl
  | @filled e items trailing ih => exact ⟨_, rfl, fun b hb frames => ih b hb [] frames trailing⟩
  | @single e item ih =>
      intro b hb before frames trailing
      obtain ⟨s, hs, hstands⟩ := ih b hb before frames
      rw [Derivation.words, State.read_append, hs, Option.bind_some]
      subst hb
      cases trailing with
      | false =>
          refine State.read_cons ?_ []
          rw [hstands.step (Derivation.endsItem_closing b.enclosure), afterItem?_closing, Item.eta]
          rfl
      | true =>
          have hcomma := hstands.step (w := Word.comma) rfl
          rw [show Word.comma.terminal = .comma from rfl, afterItem?_comma, Item.eta] at hcomma
          show s.read [.comma, b.enclosure.closing] = _
          rw [State.read_cons hcomma]
          refine State.read_cons ?_ []
          show (close? b.enclosure.closing.terminal _).or _ = _
          rw [close?_closing]
          rfl
  | @cons e item more ihItem ihMore =>
      intro b hb before frames trailing
      obtain ⟨s, hs, hstands⟩ := ihItem b hb before frames
      have hcomma := hstands.step (w := Word.comma) rfl
      rw [show Word.comma.terminal = .comma from rfl, afterItem?_comma, Item.eta] at hcomma
      rw [Derivation.words, List.append_assoc, State.read_append, hs, Option.bind_some,
        List.cons_append, State.read_cons hcomma, ihMore b hb _ frames trailing,
        List.append_assoc]
      rfl
  | unlabelled value ih =>
      intro b hb before frames
      exact ih _ frames .opened (List.mem_cons_self)
  | assignment name value ih =>
      intro b hb before frames
      cases b with
      | array => cases hb
      | arguments head =>
          have hlabel : (State.mk .opened (⟨.arguments head, before, none⟩ :: frames)).read
              [⟨.name, name⟩, .equal] =
                some ⟨.labelled, ⟨.arguments head, before, some ⟨.name, name⟩⟩ :: frames⟩ := rfl
          obtain ⟨s, hs, hstands⟩ := ih ⟨.arguments head, before, some ⟨.name, name⟩⟩ frames
            .labelled (by simp)
          refine ⟨s, ?_, hstands⟩
          show State.read _ ([⟨.name, name⟩, .equal] ++ value.words) = _
          rw [State.read_append, hlabel]
          exact hs
  | pair key text sign value ih =>
      intro b hb before frames
      cases b with
      | arguments head => cases hb
      | array =>
          have hlabel : (State.mk .opened (⟨.array, before, none⟩ :: frames)).read
              [⟨key.terminal, text⟩, sign.word] =
                some ⟨.labelled, ⟨.array, before, some ⟨key.terminal, text⟩⟩ :: frames⟩ := by
            cases key <;> cases sign <;> rfl
          obtain ⟨s, hs, hstands⟩ := ih ⟨.array, before, some ⟨key.terminal, text⟩⟩ frames
            .labelled (by simp)
          refine ⟨s, ?_, hstands⟩
          show State.read _ ([⟨key.terminal, text⟩, sign.word] ++ value.words) = _
          rw [State.read_append, hlabel]
          exact hs

/-! ## 3. What a state says about the words read -/

/-- The words that open a bracket. -/
def Bracket.start : Bracket → List Word
  | .arguments name => [.at, ⟨.name, name⟩, Enclosure.arguments.opening]
  | .array => [Enclosure.array.opening]

/-- How the label of an item is written. -/
inductive Labels : Enclosure → Option Atom → List Word → Prop
  | none {e : Enclosure} : Labels e none []
  | assignment (name : String) :
      Labels .arguments (some ⟨.name, name⟩) [⟨.name, name⟩, .equal]
  | pair (key : Leaf) (text : String) (sign : KeySign) :
      Labels .array (some ⟨key.terminal, text⟩) [⟨key.terminal, text⟩, sign.word]

/-- Finished items with a comma behind each. -/
def rowWords {e : Enclosure} (row : List (Derivation (.item e))) : List Word :=
  row.flatMap fun item => item.words ++ [.comma]

/-- What open brackets say about the words read: each was opened inside the next one, finished items
    stand in it, and perhaps a label. An array stands inside another bracket. -/
inductive Before : List Frame → List Word → Prop
  | outermost : Before [] []
  | inside {frames : List Frame} {words : List Word} (outer : Before frames words) (b : Bracket)
      (hb : b = .array → frames ≠ []) (row : List (Derivation (.item b.enclosure)))
      {label : Option Atom} {labelWords : List Word}
      (hlabel : Labels b.enclosure label labelWords) :
      Before (⟨b, row.map Derivation.meaning, label⟩ :: frames)
        (words ++ b.start ++ rowWords row ++ labelWords)

/-- What a state says about the words read. -/
inductive Behind : State → List Word → Prop
  | start : Behind .initial []
  | head {frames : List Frame} {words : List Word} (h : Before frames words) :
      Behind ⟨.head, frames⟩ (words ++ [.at])
  | named {frames : List Frame} {words : List Word} (h : Before frames words) (name : String) :
      Behind ⟨.named name, frames⟩ (words ++ [.at, ⟨.name, name⟩])
  | opened {b : Bracket} {items : List Item} {frames : List Frame} {words : List Word}
      (h : Before (⟨b, items, none⟩ :: frames) words) :
      Behind ⟨.opened, ⟨b, items, none⟩ :: frames⟩ words
  | atom {b : Bracket} {items : List Item} {frames : List Frame} {words : List Word}
      (h : Before (⟨b, items, none⟩ :: frames) words) (l : Leaf) (text : String) :
      Behind ⟨.atom ⟨l.terminal, text⟩, ⟨b, items, none⟩ :: frames⟩
        (words ++ [⟨l.terminal, text⟩])
  | labelled {f : Frame} {frames : List Frame} {words : List Word}
      (h : Before (f :: frames) words) : Behind ⟨.labelled, f :: frames⟩ words
  | item {b : Bracket} {items : List Item} {frames : List Frame} {words : List Word}
      (h : Before (⟨b, items, none⟩ :: frames) words) (item : Derivation (.item b.enclosure)) :
      Behind ⟨.item, ⟨b, items ++ [item.meaning], none⟩ :: frames⟩ (words ++ item.words)
  | done (d : Derivation .expression) : Behind ⟨.done d.meaning, []⟩ d.words

/-- A label in front of a value makes an item. -/
theorem Labels.item {e : Enclosure} {label : Option Atom} {words : List Word}
    (h : Labels e label words) (value : Derivation .plain) :
    ∃ item : Derivation (.item e), item.words = words ++ value.words ∧
      item.meaning = ⟨label, value.meaning⟩ := by
  cases h with
  | none => exact ⟨.unlabelled value, rfl, rfl⟩
  | assignment name => exact ⟨.assignment name value, rfl, rfl⟩
  | pair key text sign => exact ⟨.pair key text sign value, rfl, rfl⟩

theorem Labels.eq_nil {e : Enclosure} {words : List Word} (h : Labels e Option.none words) :
    words = [] := by
  cases h
  rfl

/-- Before the label of an item the same bracket was open. -/
theorem Before.unlabelled {b : Bracket} {items : List Item} {label : Option Atom}
    {frames : List Frame} {words : List Word} (h : Before (⟨b, items, label⟩ :: frames) words) :
    ∃ front labelWords, words = front ++ labelWords ∧ Labels b.enclosure label labelWords ∧
      Before (⟨b, items, none⟩ :: frames) front := by
  cases h with
  | @inside _ words outer _ hb row _ labelWords hlabel =>
      refine ⟨words ++ b.start ++ rowWords row, labelWords, rfl, hlabel, ?_⟩
      simpa using Before.inside outer b hb row Labels.none

/-- A finished plain value becomes an item. -/
theorem Before.plain {f : Frame} {frames : List Frame} {words : List Word}
    (h : Before (f :: frames) words) (value : Derivation .plain) :
    Behind (complete value.meaning (f :: frames)) (words ++ value.words) := by
  obtain ⟨b, items, label⟩ := f
  obtain ⟨front, labelWords, rfl, hlabel, hfront⟩ := h.unlabelled
  obtain ⟨item, hwords, hmeaning⟩ := hlabel.item value
  have hitem := Behind.item hfront item
  rw [hwords, hmeaning, ← List.append_assoc] at hitem
  exact hitem

/-- A finished annotation becomes an item, or the whole. -/
theorem Before.expression {frames : List Frame} {words : List Word} (h : Before frames words)
    (a : Derivation .expression) :
    Behind (complete a.meaning frames) (words ++ a.words) := by
  cases h with
  | outermost => exact Behind.done a
  | inside outer b hb row hlabel =>
      exact (Before.inside outer b hb row hlabel).plain (.nested a)

/-- Finished items and a last one are the items of a list. -/
theorem exists_items {e : Enclosure} (row : List (Derivation (.item e)))
    (last : Derivation (.item e)) :
    ∃ items : Derivation (.items e), items.words = rowWords row ++ last.words ∧
      items.meaning = row.map Derivation.meaning ++ [last.meaning] := by
  induction row with
  | nil => exact ⟨.single last, rfl, rfl⟩
  | cons item row ih =>
      obtain ⟨items, hwords, hmeaning⟩ := ih
      refine ⟨.cons item items, ?_, ?_⟩
      · rw [Derivation.words, hwords]
        simp [rowWords]
      · rw [Derivation.meaning, hmeaning]
        rfl

/-- Finished items, the last of them perhaps with a comma behind it, and the closing bracket are a
    list. -/
theorem exists_list {e : Enclosure} (row : List (Derivation (.item e))) :
    ∃ list : Derivation (.list e), list.words = e.opening :: (rowWords row ++ [e.closing]) ∧
      list.meaning = row.map Derivation.meaning := by
  rcases List.eq_nil_or_concat row with rfl | ⟨row, last, rfl⟩
  · exact ⟨.empty e, rfl, rfl⟩
  · obtain ⟨items, hwords, hmeaning⟩ := exists_items row last
    refine ⟨.filled items true, ?_, ?_⟩
    · rw [Derivation.words, hwords]
      simp [rowWords, Enclosure.ending]
    · rw [Derivation.meaning, hmeaning]
      simp

/-- A finished list is a finished value. -/
theorem Before.close {frames : List Frame} {words : List Word} (h : Before frames words)
    (b : Bracket) (hb : b = .array → frames ≠ []) (list : Derivation (.list b.enclosure))
    {rest : List Word} (hlist : list.words = b.enclosure.opening :: rest) :
    Behind (complete (b.tree list.meaning) frames) (words ++ (b.start ++ rest)) := by
  cases b with
  | arguments name =>
      have hall : Behind (complete (.call name list.meaning) frames)
          (words ++ .at :: ⟨.name, name⟩ :: list.words) := h.expression (.applied name list)
      rw [hlist] at hall
      exact hall
  | array =>
      cases h with
      | outermost => exact absurd rfl (hb rfl)
      | inside outer b houter row hlabel =>
          have hall := (Before.inside outer b houter row hlabel).plain (.array list)
          rw [show (Derivation.array list).words = list.words from rfl, hlist] at hall
          exact hall

/-! ## 4. Steps keep it -/

/-- A word that is spelled as a lexeme of its terminal. -/
def Word.Spelled (w : Word) : Prop := w.text.toList ∈ lexemes w.terminal

theorem Word.ext {v w : Word} (hterminal : v.terminal = w.terminal)
    (htext : v.text.toList = w.text.toList) : v = w := by
  obtain ⟨t, text⟩ := v
  obtain ⟨t', text'⟩ := w
  cases hterminal
  rw [show text = text' from String.ext htext]

/-- A sign has only one spelling. -/
theorem Word.Spelled.eq_of_sign {v w : Word} (h : v.Spelled)
    (hterminal : v.terminal = w.terminal) (hw : lexemes w.terminal = {w.text.toList}) : v = w := by
  refine Word.ext hterminal ?_
  rw [Word.Spelled, hterminal, hw] at h
  exact h

theorem Word.Spelled.at {v : Word} (h : v.Spelled) (hv : v.terminal = .at) : v = .at :=
  h.eq_of_sign hv rfl

theorem Word.Spelled.comma {v : Word} (h : v.Spelled) (hv : v.terminal = .comma) : v = .comma :=
  h.eq_of_sign hv rfl

theorem Word.Spelled.opening {v : Word} (h : v.Spelled) (e : Enclosure)
    (hv : v.terminal = e.opening.terminal) : v = e.opening :=
  h.eq_of_sign hv (by cases e <;> rfl)

theorem Word.Spelled.closing {v : Word} (h : v.Spelled) (e : Enclosure)
    (hv : v.terminal = e.closing.terminal) : v = e.closing :=
  h.eq_of_sign hv (by cases e <;> rfl)

theorem Word.Spelled.keySign {v : Word} (h : v.Spelled) (sign : KeySign)
    (hv : v.terminal = sign.word.terminal) : v = sign.word :=
  h.eq_of_sign hv (by cases sign <;> rfl)

/-- A bracket that is opened. -/
theorem Before.opened {frames : List Frame} {words : List Word} (h : Before frames words)
    (b : Bracket) (hb : b = .array → frames ≠ []) :
    Behind ⟨.opened, ⟨b, [], none⟩ :: frames⟩ (words ++ b.start) := by
  have hopened := Before.inside h b hb [] Labels.none
  rw [show rowWords ([] : List (Derivation (.item b.enclosure))) = [] from rfl,
    List.append_nil, List.append_nil] at hopened
  exact .opened hopened

/-- The closing bracket behind a comma or the opening one. -/
theorem Before.step_close {b : Bracket} {items : List Item} {frames : List Frame}
    {words : List Word} (h : Before (⟨b, items, none⟩ :: frames) words) {w : Word}
    (hw : w.Spelled) {next : State}
    (hstep : close? w.terminal (⟨b, items, none⟩ :: frames) = some next) :
    Behind next (words ++ [w]) := by
  rw [close?, b.closer_eq] at hstep
  split at hstep
  · rename_i hcloser
    cases hstep
    rw [hw.closing _ hcloser]
    cases h with
    | inside outer _ hb row hlabel =>
        obtain rfl := hlabel.eq_nil
        obtain ⟨list, hwords, hmeaning⟩ := exists_list row
        have hclose := outer.close b hb list hwords
        rw [hmeaning] at hclose
        simpa [List.append_assoc] using hclose
  · cases hstep

/-- A word behind an item. -/
theorem Before.step_item {b : Bracket} {items : List Item} {frames : List Frame}
    {words : List Word} (h : Before (⟨b, items, none⟩ :: frames) words)
    (item : Derivation (.item b.enclosure)) {w : Word} (hw : w.Spelled) {next : State}
    (hstep : afterItem? w.terminal (⟨b, items ++ [item.meaning], none⟩ :: frames) = some next) :
    Behind next (words ++ item.words ++ [w]) := by
  cases h with
  | inside outer _ hb row hlabel =>
      obtain rfl := hlabel.eq_nil
      rw [afterItem?] at hstep
      split at hstep
      · rename_i hcomma
        cases hstep
        rw [hw.comma hcomma]
        have hnext := Behind.opened (Before.inside outer b hb (row ++ [item]) Labels.none)
        simpa [rowWords] using hnext
      · rw [close?, b.closer_eq] at hstep
        split at hstep
        · rename_i hcloser
          cases hstep
          rw [hw.closing _ hcloser]
          obtain ⟨all, hwords, hmeaning⟩ := exists_items row item
          have hclose := outer.close b hb (.filled all false) rfl
          rw [show (Derivation.filled all false).meaning = all.meaning from rfl, hmeaning,
            hwords] at hclose
          simpa [Enclosure.ending] using hclose
        · cases hstep

/-- A word behind a finished value. -/
theorem Before.step_value {f : Frame} {frames : List Frame} {words : List Word}
    (h : Before (f :: frames) words) (value : Derivation .plain) {w : Word} (hw : w.Spelled)
    {next : State} (hstep : afterValue? value.meaning (f :: frames) w.terminal = some next) :
    Behind next (words ++ value.words ++ [w]) := by
  obtain ⟨b, items, label⟩ := f
  obtain ⟨front, labelWords, rfl, hlabel, hfront⟩ := h.unlabelled
  obtain ⟨item, hwords, hmeaning⟩ := hlabel.item value
  have hitem : afterItem? w.terminal (⟨b, items ++ [item.meaning], none⟩ :: frames) =
      some next := by
    rw [hmeaning]
    exact hstep
  have hnext := hfront.step_item item hw hitem
  rwa [hwords, ← List.append_assoc] at hnext

/-- The first word of a value. -/
theorem Before.step_first {f : Frame} {frames : List Frame} {words : List Word}
    (h : Before (f :: frames) words) {w : Word} (hw : w.Spelled) {mayLabel : Bool}
    (hlabel : mayLabel = true → f.label = none) {next : State}
    (hstep : value? ⟨w.terminal, w.text, .start⟩ mayLabel (f :: frames) = some next) :
    Behind next (words ++ [w]) := by
  -- A leaf waits for a sign behind it, if it can still be a label, or is a finished value.
  have hleaf : ∀ l : Leaf, w = ⟨l.terminal, w.text⟩ →
      Behind (if mayLabel then ⟨.atom ⟨l.terminal, w.text⟩, f :: frames⟩
        else complete (.atom ⟨l.terminal, w.text⟩) (f :: frames)) (words ++ [w]) := by
    intro l hl
    rw [hl]
    cases mayLabel with
    | true =>
        obtain ⟨b, items, label⟩ := f
        obtain rfl : label = none := hlabel rfl
        exact .atom h l w.text
    | false => exact h.plain (.leaf l w.text)
  obtain ⟨t, text⟩ := w
  cases t with
  | «at» =>
      cases hstep
      rw [hw.at rfl]
      exact .head h
  | lbrace =>
      cases hstep
      rw [hw.opening .array rfl]
      exact h.opened .array fun _ => List.cons_ne_nil _ _
  | name =>
      cases hstep
      exact hleaf .name rfl
  | string =>
      cases hstep
      exact hleaf .string rfl
  | number =>
      cases hstep
      exact hleaf .number rfl
  | _ => cases hstep

/-- The sign that makes an atom the label of an item. -/
theorem Before.step_label {b : Bracket} {items : List Item} {frames : List Frame}
    {words : List Word} (h : Before (⟨b, items, none⟩ :: frames) words) {l : Leaf} {text : String}
    {w : Word} (hw : w.Spelled) (hlabel : b.isLabel ⟨l.terminal, text⟩ w.terminal = true) :
    Behind ⟨.labelled, ⟨b, items, some ⟨l.terminal, text⟩⟩ :: frames⟩
      (words ++ [⟨l.terminal, text⟩] ++ [w]) := by
  have hsign : Labels b.enclosure (some ⟨l.terminal, text⟩) [⟨l.terminal, text⟩, w] := by
    cases b with
    | arguments name =>
        obtain ⟨hname, hequal⟩ := Bool.and_eq_true_iff.mp hlabel
        rw [hw.keySign .equal (of_decide_eq_true hequal),
          show l.terminal = .name from of_decide_eq_true hname]
        exact .assignment text
    | array =>
        rcases Bool.or_eq_true_iff.mp hlabel with hequal | hcolon
        · rw [hw.keySign .equal (of_decide_eq_true hequal)]
          exact .pair l text .equal
        · rw [hw.keySign .colon (of_decide_eq_true hcolon)]
          exact .pair l text .colon
  cases h with
  | inside outer _ hb row hnone =>
      obtain rfl := hnone.eq_nil
      have hnext := Behind.labelled (Before.inside outer b hb row hsign)
      simpa [List.append_assoc] using hnext

/-- **A step keeps what a state says about the words read.** -/
theorem Behind.step {s next : State} {words : List Word} (h : Behind s words) {w : Word}
    (hw : w.Spelled) (hstep : s.stepWord? w = some next) : Behind next (words ++ [w]) := by
  cases h with
  | start =>
      change (if w.terminal = .at then _ else _) = _ at hstep
      split at hstep
      · rename_i hat
        cases hstep
        rw [hw.at hat]
        exact .head .outermost
      · cases hstep
  | @head frames words h =>
      change (if w.terminal = .name then _ else _) = _ at hstep
      split at hstep
      · rename_i hname
        cases hstep
        rw [show w = ⟨.name, w.text⟩ from Word.ext hname rfl, List.append_assoc]
        exact .named h w.text
      · cases hstep
  | @named frames words h name =>
      change (if w.terminal = .lpar then _ else _) = _ at hstep
      split at hstep
      · rename_i hlpar
        cases hstep
        rw [hw.opening .arguments hlpar, List.append_assoc]
        exact h.opened (.arguments name) nofun
      · cases frames with
        | nil => cases hstep
        | cons f frames => exact h.step_value (.nested (.bare name)) hw hstep
  | @opened b items frames words h =>
      change (close? w.terminal _).or (value? _ true _) = _ at hstep
      rcases Option.or_eq_some_iff.mp hstep with hclose | ⟨-, hvalue⟩
      · exact h.step_close hw hclose
      · exact h.step_first hw (fun _ => rfl) hvalue
  | @atom b items frames words h l text =>
      change (if b.isLabel ⟨l.terminal, text⟩ w.terminal = true then _ else _) = _ at hstep
      split at hstep
      · rename_i hlabel
        cases hstep
        exact h.step_label hw hlabel
      · exact h.step_value (.leaf l text) hw hstep
  | labelled h =>
      exact h.step_first hw (fun hlabel => absurd hlabel Bool.false_ne_true) hstep
  | item h item => exact h.step_item item hw hstep
  | done d => cases hstep

theorem Behind.read {s last : State} {words more : List Word} (h : Behind s words)
    (hmore : ∀ w ∈ more, w.Spelled) (hread : s.read more = some last) :
    Behind last (words ++ more) := by
  induction more generalizing s words with
  | nil =>
      cases hread
      rwa [List.append_nil]
  | cons w more ih =>
      obtain ⟨hw, hmore⟩ := List.forall_mem_cons.mp hmore
      rw [State.read] at hread
      obtain ⟨next, hstep, hread⟩ := Option.bind_eq_some_iff.mp hread
      have hall := ih (h.step hw hstep) hmore hread
      rwa [List.append_assoc] at hall

/-- Where a text may end, the words read are an annotation. -/
theorem Behind.derivation {s : State} {words : List Word} {tree : Tree} (h : Behind s words)
    (htree : s.tree? = some tree) :
    ∃ d : Derivation .expression, d.words = words ∧ d.meaning = tree := by
  cases h with
  | @named frames words h name =>
      cases frames with
      | nil =>
          cases htree
          cases h
          exact ⟨.bare name, rfl, rfl⟩
      | cons f frames => cases htree
  | done d =>
      cases htree
      exact ⟨d, rfl, rfl⟩
  | start | head | opened | atom | labelled | item => cases htree

/-! ## 5. The reader and the grammar -/

/-- The tree that the reader makes of words. -/
def treeOf (words : List Word) : Option Tree :=
  (State.initial.read words).bind State.tree?

/-- The reader makes of the words of a derivation what it means. -/
theorem treeOf_words (d : Derivation .expression) : treeOf d.words = some d.meaning := by
  obtain ⟨rest, hwords, hread⟩ := reads d
  obtain ⟨s, hs, hcases⟩ := hread []
  have hfirst : State.initial.stepWord? .at = some ⟨.head, []⟩ := rfl
  rw [treeOf, hwords, State.read_cons hfirst, hs, Option.bind_some]
  rcases hcases with rfl | ⟨name, hname, rfl⟩
  · rfl
  · rw [hname]
    rfl

/-- **The reader makes a tree of words exactly if an annotation that means the tree derives
    them.** -/
theorem treeOf_eq_some_iff {words : List Word} (hwords : ∀ w ∈ words, w.Spelled) (tree : Tree) :
    treeOf words = some tree ↔
      ∃ d : Derivation .expression, d.words = words ∧ d.meaning = tree := by
  constructor
  · intro h
    obtain ⟨last, hread, htree⟩ := Option.bind_eq_some_iff.mp h
    exact (Behind.start.read hwords hread).derivation htree
  · rintro ⟨d, rfl, rfl⟩
    exact treeOf_words d

end Marginalia.Expression
