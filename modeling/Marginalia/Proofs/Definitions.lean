import Marginalia.Expansion
import Marginalia.Proofs.Note.Slots

/-!
# Partial definitions as a map

Definitions are kept as a list in the order in which their ids were first defined. What matters of
them is which definition an id finds:

* `find?_put_self`, `find?_put_of_ne`: defining an id changes what that id finds and nothing else;
* `has_iff`: an id is defined if it finds a definition;
* `Definitions.Distinct`: every id stands in the list once, which defining keeps so;
* `find?_extend`: a list of one definition grows, and nothing else changes.
-/

namespace Marginalia

namespace Definitions

/-- Every id stands in the list once. -/
def Distinct (defs : Definitions) : Prop := (defs.map (·.1)).Nodup

theorem has_iff {defs : Definitions} {id : String} : defs.has id = true ↔ id ∈ defs.map (·.1) := by
  unfold has
  rw [List.any_eq_true, List.mem_map]
  constructor
  · rintro ⟨e, he, heq⟩
    exact ⟨e, he, beq_iff_eq.mp heq⟩
  · rintro ⟨e, he, heq⟩
    exact ⟨e, he, beq_iff_eq.mpr heq⟩

theorem has_eq_isSome (defs : Definitions) (id : String) :
    defs.has id = (defs.find? id).isSome := by
  unfold has find?
  induction defs with
  | nil => rfl
  | cons e defs ih =>
      obtain ⟨k, d⟩ := e
      rw [List.any_cons, List.lookup_cons, ih, Bool.beq_comm]
      cases id == k <;> rfl

theorem find?_of_mem {defs : Definitions} (hn : defs.Distinct) {e : String × Note} (he : e ∈ defs) :
    defs.find? e.1 = some e.2 := lookup_of_mem hn he

/-- Replacing the definition of an id that is there. -/
theorem find?_replace (defs : Definitions) (id other : String) (a : Note) :
    Definitions.find? (defs.map fun e => if e.1 == id then (id, a) else e) other =
      if other = id then (if defs.has id then some a else none) else defs.find? other := by
  unfold find? has
  induction defs with
  | nil => split <;> rfl
  | cons e defs ih =>
      obtain ⟨k, c⟩ := e
      rw [List.map_cons, List.any_cons]
      by_cases hk : k = id
      · subst hk
        rw [if_pos (beq_self_eq_true k)]
        simp only [List.lookup_cons]
        by_cases ho : other = k
        · subst ho
          simp
        · have hne : (other == k) = false := beq_eq_false_iff_ne.mpr ho
          rw [hne, if_neg ho]
          rw [if_neg ho] at ih
          exact ih
      · have hne : (k == id) = false := beq_eq_false_iff_ne.mpr hk
        rw [if_neg (by rw [hne]; exact Bool.false_ne_true), hne, Bool.false_or]
        simp only [List.lookup_cons, ih]
        by_cases ho : other = id
        · subst ho
          have hok : (other == k) = false := beq_eq_false_iff_ne.mpr fun h => hk h.symm
          rw [hok]
        · rw [if_neg ho, if_neg ho]

theorem find?_put (defs : Definitions) (id other : String) (a : Note) :
    (defs.put id a).find? other = if other = id then some a else defs.find? other := by
  unfold put
  cases hany : defs.any (·.1 == id) with
  | true =>
      have hhas : defs.has id = true := hany
      rw [if_pos rfl, find?_replace, hhas, if_pos rfl]
  | false =>
      have hhas : defs.has id = false := hany
      rw [has_eq_isSome] at hhas
      rw [if_neg Bool.false_ne_true]
      show List.lookup other (defs ++ [(id, a)]) = _
      rw [List.lookup_append]
      by_cases ho : other = id
      · subst ho
        have hnone : List.lookup other defs = none := Option.isNone_iff_eq_none.mp (by
          rw [← Option.not_isSome]; exact congrArg Bool.not hhas)
        rw [hnone, if_pos rfl]
        simp
      · have hne : (other == id) = false := beq_eq_false_iff_ne.mpr ho
        rw [if_neg ho, List.lookup_cons, hne, List.lookup_nil, Option.or_none]
        rfl

theorem keys_put (defs : Definitions) (id : String) (a : Note) :
    (defs.put id a).map (·.1) =
      if defs.has id then defs.map (·.1) else defs.map (·.1) ++ [id] := by
  unfold put has
  split
  · rw [List.map_map]
    refine List.map_congr_left fun e _ => ?_
    show (if e.1 == id then (id, a) else e).1 = e.1
    split
    · rename_i h
      exact (beq_iff_eq.mp h).symm
    · rfl
  · rw [List.map_append]
    rfl

theorem Distinct.put {defs : Definitions} (h : defs.Distinct) (id : String) (a : Note) :
    (defs.put id a).Distinct := by
  unfold Distinct at h ⊢
  rw [keys_put]
  split
  · exact h
  · rename_i hn
    rw [has_iff] at hn
    rw [List.nodup_append]
    refine ⟨h, List.pairwise_singleton _ id, fun x hx y hy => ?_⟩
    rw [List.mem_singleton.mp hy]
    exact fun e => hn (e ▸ hx)

theorem find?_extend (defs : Definitions) (origin id : String) (f : Field) (items : List Value) :
    (defs.extend origin f items).find? id =
      (defs.find? id).map fun d => if id = origin then d.extend f items else d := by
  unfold extend find?
  induction defs with
  | nil => rfl
  | cons e defs ih =>
      obtain ⟨k, d⟩ := e
      rw [List.map_cons]
      by_cases hk : k = origin
      · subst hk
        rw [if_pos (beq_self_eq_true k), List.lookup_cons, List.lookup_cons]
        by_cases hid : id = k
        · subst hid
          rw [beq_self_eq_true]
          exact congrArg some (if_pos rfl).symm
        · rw [beq_eq_false_iff_ne.mpr hid]
          exact ih
      · rw [if_neg (fun h => hk (beq_iff_eq.mp h)), List.lookup_cons, List.lookup_cons]
        by_cases hid : id = k
        · subst hid
          rw [beq_self_eq_true]
          exact congrArg some (if_neg hk).symm
        · rw [beq_eq_false_iff_ne.mpr hid]
          exact ih

end Definitions

end Marginalia
