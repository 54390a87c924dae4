import Marginalia.Proofs.Expression.Spelling

/-!
# Sentences of the grammar

Reading a text succeeds exactly if the text is a sentence: if it can be cut into words that have a
derivation. The words and the derivation are then unique, and the tree is what the derivation means
(`parse_accepts_grammar`).

Since every spelling of a derivation is a tokenisation, a text that spells a derivation is read as
what the derivation means (`parse_of_spelled`).
-/

namespace Marginalia.Expression

/-- The tree of a text is what the reader makes of its words. -/
theorem parse_eq_ok_iff_treeOf {text : List Char} {tree : Tree} :
    parse text = .ok tree ↔ ∃ words, Tokenised text words ∧ treeOf words = some tree := by
  constructor
  · intro h
    unfold parse at h
    generalize htokens : tokens text = cut at h
    obtain ⟨ts, ending⟩ := cut
    dsimp only at h
    split at h
    · cases h
    · rename_i s hrun
      split at h
      · cases h
      · rename_i tree' htree
        cases h
        refine ⟨ts.map Token.word, (tokens_eq_iff text _).mp ?_, ?_⟩
        · rw [htokens]
          exact ⟨rfl, rfl⟩
        · rw [treeOf, (State.run_eq_ok_iff _ _ _).mp hrun]
          exact htree
      · cases h
  · rintro ⟨words, hwords, htree⟩
    obtain ⟨rfl, hending⟩ := (tokens_eq_iff text words).mpr hwords
    obtain ⟨s, hread, hs⟩ := Option.bind_eq_some_iff.mp htree
    have hrun := (State.run_eq_ok_iff _ _ _).mpr hread
    unfold parse
    generalize tokens text = cut at hending hrun
    obtain ⟨ts, ending⟩ := cut
    dsimp only at hending hrun ⊢
    subst hending
    rw [hrun]
    dsimp only
    rw [hs]

theorem parse_eq_ok_iff {text : List Char} {tree : Tree} :
    parse text = .ok tree ↔
      ∃ d : Derivation .expression, Tokenised text d.words ∧ d.meaning = tree := by
  rw [parse_eq_ok_iff_treeOf]
  constructor
  · rintro ⟨words, hwords, htree⟩
    obtain ⟨d, rfl, hd⟩ := (treeOf_eq_some_iff hwords.spelled.words tree).mp htree
    exact ⟨d, hwords, hd⟩
  · rintro ⟨d, hwords, rfl⟩
    exact ⟨d.words, hwords, treeOf_words d⟩

/-- A text that spells a derivation is read as what the derivation means. -/
theorem parse_of_spelled {text : List Char} {d : Derivation .expression}
    (h : Spelled text d.words) : parse text = .ok d.meaning :=
  parse_eq_ok_iff.mpr ⟨d, h.tokenised, rfl⟩

/-- **Reading accepts exactly the sentences of the grammar.** A text can be read if and only if it
    can be cut into words that the grammar derives. Then there is no other way to cut it, the words
    have no other derivation, and the tree that is read is what the derivation means. -/
theorem parse_accepts_grammar (text : List Char) :
    ((∃ tree, parse text = .ok tree) ↔
      ∃ words, Tokenised text words ∧ ∃ d : Derivation .expression, d.words = words) ∧
    ∀ words, Tokenised text words → ∀ d : Derivation .expression, d.words = words →
      parse text = .ok d.meaning ∧
      (∀ words', Tokenised text words' → words' = words) ∧
      ∀ d' : Derivation .expression, d'.words = words → d' = d := by
  refine ⟨⟨?_, ?_⟩, ?_⟩
  · rintro ⟨tree, h⟩
    obtain ⟨d, hwords, -⟩ := parse_eq_ok_iff.mp h
    exact ⟨d.words, hwords, d, rfl⟩
  · rintro ⟨_, hwords, d, rfl⟩
    exact ⟨d.meaning, parse_eq_ok_iff.mpr ⟨d, hwords, rfl⟩⟩
  · rintro _ hwords d rfl
    refine ⟨parse_eq_ok_iff.mpr ⟨d, hwords, rfl⟩, ?_, ?_⟩
    · intro words' hwords'
      exact hwords'.unique hwords
    · intro d' hd'
      exact Derivation.unambiguous hd'

end Marginalia.Expression
