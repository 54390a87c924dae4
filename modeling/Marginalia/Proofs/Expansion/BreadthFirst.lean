import Marginalia.Proofs.Expansion.Custody

/-!
# The order in which references are followed

The row of ids that an annotation follows grows while it is worked through. This module says what
comes out of that, without the row:

* `Leads`: an id is reached from the annotation's own references through definitions that pass
  their references on. The row holds exactly these ids (`mem_queue_iff`);
* `reached`: the ids that are reached in a number of steps, the nearer ones first and those of one
  step in the order in which they are passed on. Each of these lists is a beginning of the row
  (`reached_prefix_queue`), and one of them is all of it (`exists_queue_eq_reached`).
-/

namespace Marginalia

/-- **An id is reached** from some ids through definitions that pass their references on. -/
inductive Leads (defs : Definitions) (k : Kind) (chain own : List String) : String → Prop
  | own {id : String} (h : id ∈ own) : Leads defs k chain own id
  | passed {id r : String} (h : Leads defs k chain own id) (hr : r ∈ passedOn defs k chain id) :
      Leads defs k chain own r

/-- **The ids that are reached in a number of steps**: in each step those that the ids so far pass
    on come behind them, each of them once. -/
def reached (defs : Definitions) (k : Kind) (chain own : List String) : Nat → List String
  | 0 => own
  | n + 1 =>
    let before := reached defs k chain own n
    before ++ newIds before (before.flatMap (passedOn defs k chain))

/-! ## 1. New ids -/

theorem mem_newIds {seen ids : List String} {id : String} (h : id ∈ newIds seen ids) :
    id ∈ ids := by
  induction ids generalizing seen with
  | nil => cases h
  | cons r ids ih =>
      unfold newIds at h
      split at h
      · exact List.mem_cons_of_mem r (ih h)
      · rcases List.mem_cons.mp h with rfl | h
        · exact List.mem_cons_self
        · exact List.mem_cons_of_mem r (ih h)

theorem mem_or_mem_newIds (seen : List String) {ids : List String} {id : String} (h : id ∈ ids) :
    id ∈ seen ∨ id ∈ newIds seen ids := by
  induction ids generalizing seen with
  | nil => cases h
  | cons r ids ih =>
      unfold newIds
      split
      · rename_i hr
        rcases List.mem_cons.mp h with rfl | h
        · exact .inl (List.contains_iff_mem.mp hr)
        · exact ih seen h
      · rcases List.mem_cons.mp h with rfl | h
        · exact .inr List.mem_cons_self
        · rcases ih (seen ++ [r]) h with h | h
          · rcases List.mem_append.mp h with h | h
            · exact .inl h
            · exact .inr (List.mem_cons.mpr (.inl (List.mem_singleton.mp h)))
          · exact .inr (List.mem_cons_of_mem r h)

theorem newIds_append (seen xs ys : List String) :
    newIds seen (xs ++ ys) = newIds seen xs ++ newIds (seen ++ newIds seen xs) ys := by
  induction xs generalizing seen with
  | nil => rw [newIds, List.append_nil, List.nil_append, List.nil_append]
  | cons id xs ih =>
      rw [List.cons_append, newIds, newIds]
      split
      · exact ih seen
      · rw [ih (seen ++ [id]), List.append_assoc, List.singleton_append, List.cons_append]

/-- Ids that have been seen are not new. -/
theorem newIds_of_subset {seen xs : List String} (h : ∀ id ∈ xs, id ∈ seen) :
    newIds seen xs = [] := by
  induction xs with
  | nil => rfl
  | cons id xs ih =>
      obtain ⟨hid, hxs⟩ := List.forall_mem_cons.mp h
      unfold newIds
      rw [if_pos (List.contains_iff_mem.mpr hid)]
      exact ih hxs

/-! ## 2. The row, generation by generation -/

section Row

variable (defs : Definitions) (k : Kind) (chain own : List String)

/-- The ids in front of the row are worked through, and what they pass on stands behind it. -/
theorem queueFrom_append (seen front back : List String) :
    queueFrom defs k chain seen (front ++ back) =
      front ++ queueFrom defs k chain
        (seen ++ newIds seen (front.flatMap (passedOn defs k chain)))
        (back ++ newIds seen (front.flatMap (passedOn defs k chain))) := by
  induction front generalizing seen back with
  | nil => simp only [List.nil_append, List.flatMap_nil, newIds, List.append_nil]
  | cons id front ih =>
      rw [List.cons_append, queueFrom, List.append_assoc, ih, List.flatMap_cons, newIds_append,
        List.cons_append]
      simp only [List.append_assoc]

/-- How far the row has been worked through when all that is reached in a number of steps stands in
    it: `before` is done, and what it passes on has been reached. -/
structure Worked (n : Nat) (before front : List String) : Prop where
  row : reached defs k chain own n = before ++ front
  closed : ∀ id ∈ before, ∀ r ∈ passedOn defs k chain id, r ∈ reached defs k chain own n
  rest : queueFrom defs k chain own own =
    before ++ queueFrom defs k chain (reached defs k chain own n) front

variable {defs k chain own} in
/-- One generation. -/
theorem Worked.step {n : Nat} {before front : List String}
    (h : Worked defs k chain own n before front) :
    Worked defs k chain own (n + 1) (reached defs k chain own n)
      (newIds (reached defs k chain own n) (front.flatMap (passedOn defs k chain))) := by
  have hold : ∀ id ∈ before.flatMap (passedOn defs k chain), id ∈ reached defs k chain own n := by
    intro id hid
    obtain ⟨r, hr, hp⟩ := List.mem_flatMap.mp hid
    exact h.closed r hr id hp
  have hnew : newIds (reached defs k chain own n)
      ((reached defs k chain own n).flatMap (passedOn defs k chain)) =
        newIds (reached defs k chain own n) (front.flatMap (passedOn defs k chain)) := by
    have hflat : (reached defs k chain own n).flatMap (passedOn defs k chain) =
        before.flatMap (passedOn defs k chain) ++ front.flatMap (passedOn defs k chain) := by
      rw [h.row, List.flatMap_append]
    rw [hflat, newIds_append, newIds_of_subset hold, List.nil_append, List.append_nil]
  have hrow : reached defs k chain own (n + 1) = reached defs k chain own n ++
      newIds (reached defs k chain own n) (front.flatMap (passedOn defs k chain)) := by
    rw [← hnew, reached]
  refine ⟨hrow, fun id hid r hr => ?_, ?_⟩
  · rw [hrow]
    refine List.mem_append.mpr ?_
    rw [h.row] at hid
    rcases List.mem_append.mp hid with hid | hid
    · exact .inl (h.closed id hid r hr)
    · exact mem_or_mem_newIds _ (List.mem_flatMap.mpr ⟨id, hid, hr⟩)
  · have hwork := queueFrom_append defs k chain (reached defs k chain own n) front []
    rw [List.append_nil, List.nil_append] at hwork
    rw [h.rest, hwork, hrow, ← List.append_assoc, ← h.row]

theorem exists_worked (n : Nat) : ∃ before front, Worked defs k chain own n before front := by
  induction n with
  | zero => exact ⟨[], own, rfl, fun _ h => (nomatch h), rfl⟩
  | succ n ih =>
      obtain ⟨before, front, h⟩ := ih
      exact ⟨_, _, h.step⟩

theorem reached_prefix_queueFrom (n : Nat) :
    reached defs k chain own n <+: queueFrom defs k chain own own := by
  obtain ⟨before, front, h⟩ := exists_worked defs k chain own n
  have hwork := queueFrom_append defs k chain (reached defs k chain own n) front []
  rw [List.append_nil, List.nil_append] at hwork
  rw [h.rest, hwork, h.row, ← List.append_assoc]
  exact List.prefix_append _ _

theorem exists_queueFrom_eq_reached :
    ∃ n, queueFrom defs k chain own own = reached defs k chain own n := by
  -- as long as the row is not all, every step finds a new id
  have hgrows : ∀ n, (∃ m, queueFrom defs k chain own own = reached defs k chain own m) ∨
      n ≤ (reached defs k chain own n).length := by
    intro n
    induction n with
    | zero => exact .inr (Nat.zero_le _)
    | succ n ih =>
        rcases ih with hdone | hlength
        · exact .inl hdone
        · obtain ⟨before, front, h⟩ := exists_worked defs k chain own n
          have hnext := h.step
          cases hnew : newIds (reached defs k chain own n)
              (front.flatMap (passedOn defs k chain)) with
          | nil =>
              refine .inl ⟨n, ?_⟩
              rw [hnew] at hnext
              rw [hnext.rest, queueFrom, List.append_nil]
          | cons id more =>
              refine .inr ?_
              rw [hnext.row, hnew, List.length_append, List.length_cons]
              omega
  rcases hgrows ((queueFrom defs k chain own own).length + 1) with hdone | hlength
  · exact hdone
  · have hle := (reached_prefix_queueFrom defs k chain own
      ((queueFrom defs k chain own own).length + 1)).length_le
    omega

theorem leads_of_mem_reached {n : Nat} {id : String} (h : id ∈ reached defs k chain own n) :
    Leads defs k chain own id := by
  induction n generalizing id with
  | zero => exact .own h
  | succ n ih =>
      rw [reached] at h
      rcases List.mem_append.mp h with h | h
      · exact ih h
      · obtain ⟨r, hr, hp⟩ := List.mem_flatMap.mp (mem_newIds h)
        exact .passed (ih hr) hp

theorem mem_reached_of_leads {id : String} (h : Leads defs k chain own id) :
    ∃ n, id ∈ reached defs k chain own n := by
  induction h with
  | own h => exact ⟨0, h⟩
  | passed h hr ih =>
      obtain ⟨n, hn⟩ := ih
      refine ⟨n + 1, ?_⟩
      rw [reached]
      exact List.mem_append.mpr (mem_or_mem_newIds _ (List.mem_flatMap.mpr ⟨_, hn, hr⟩))

end Row

/-! ## 3. The ids that an annotation follows -/

section Queue

variable (defs : Definitions) (chain : List String) (a : Note)

/-- **Nearer ids come first**: what is reached in a number of steps is a beginning of the row. -/
theorem reached_prefix_queue (n : Nat) :
    reached defs a.kind chain a.partials n <+: queue defs chain a :=
  reached_prefix_queueFrom defs a.kind chain a.partials n

theorem exists_queue_eq_reached :
    ∃ n, queue defs chain a = reached defs a.kind chain a.partials n :=
  exists_queueFrom_eq_reached defs a.kind chain a.partials

/-- **The row holds the ids that are reached**, and no others. -/
theorem mem_queue_iff (id : String) :
    id ∈ queue defs chain a ↔ Leads defs a.kind chain a.partials id := by
  constructor
  · intro h
    obtain ⟨n, hn⟩ := exists_queue_eq_reached defs chain a
    rw [hn] at h
    exact leads_of_mem_reached defs a.kind chain a.partials h
  · intro h
    obtain ⟨n, hn⟩ := mem_reached_of_leads defs a.kind chain a.partials h
    exact (reached_prefix_queue defs chain a n).subset hn

end Queue

end Marginalia
