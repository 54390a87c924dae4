import Mathlib.Logic.Relation
import Marginalia.Watch

/-!
# Starting and stopping, call upon call

`start` and `stop` may be called at any time, also while other calls of `stop` wait for the end of a
task, and a task comes to its end when it does. The calls come from outside of the tasks. What they
decide, they decide by the known task:

* `Moment`, `Turn`, `Follows`: what can happen to the tasks of a watcher, one thing after another. A
  call of `stop` whose task runs is cut in two, and anything can happen in between;
* `Tasks.OnlyKnownRuns`: no task runs but the known one. Every turn keeps this but one: a `stop`
  that has waited for one task and gives up another one that runs (`Late`,
  `Follows.onlyKnownRuns_iff`);
* `Run`: what has happened from the beginning. Where no two calls of `stop` are under way at once,
  none of them is late (`Run.not_late`). Calls that are made one after another are of this sort
  (`Session.InTurn.through`).

Main statement: `starts_and_stops`.
-/

namespace Marginalia

variable {ε : Type}

/-! ## 1. Tasks -/

namespace Tasks

/-- Task `t` runs. -/
def Runs (s : Tasks ε) (t : Nat) : Prop := s.made[t]? = some .running

/-- Task `t` has come to its end. -/
def IsOver (s : Tasks ε) (t : Nat) : Prop := ∃ how, s.made[t]? = some how ∧ how ≠ .running

/-- A task is known, and it runs. -/
def Watches (s : Tasks ε) : Prop := ∃ t, s.known = some t ∧ s.Runs t

/-- No task runs but the known one. -/
def OnlyKnownRuns (s : Tasks ε) : Prop := ∀ t, s.Runs t → s.known = some t

theorem IsOver.not_runs {s : Tasks ε} {t : Nat} (h : s.IsOver t) : ¬s.Runs t := by
  obtain ⟨how, hmade, hhow⟩ := h
  intro hruns
  exact hhow (Option.some.inj (hmade.symm.trans hruns))

theorem runs_or_isOver {s : Tasks ε} {t : Nat} (h : s.known = some t) : s.Runs t ∨ s.IsOver t := by
  obtain ⟨how, hmade⟩ : ∃ how, s.made[t]? = some how :=
    ⟨_, List.getElem?_eq_getElem (s.known_lt t h)⟩
  cases how with
  | running => exact .inl hmade
  | _ => exact .inr ⟨_, hmade, nofun⟩

theorem start_of_known {s : Tasks ε} {t : Nat} (h : s.known = some t) : s.start = s := by
  unfold start
  split
  · rename_i hnone
    cases h.symm.trans hnone
  · rfl

theorem start_of_none {s : Tasks ε} (h : s.known = none) :
    s.start.known = some s.made.length ∧ s.start.made = s.made ++ [.running] := by
  unfold start
  split
  · exact ⟨rfl, rfl⟩
  · rename_i t hknown
    cases h.symm.trans hknown

theorem runs_start_of_none {s : Tasks ε} (h : s.known = none) (t : Nat) :
    s.start.Runs t ↔ s.Runs t ∨ t = s.made.length := by
  rw [Runs, (start_of_none h).2, Runs]
  by_cases hlt : t < s.made.length
  · rw [List.getElem?_append_left hlt]
    exact ⟨.inl, fun h => h.resolve_right (Nat.ne_of_lt hlt)⟩
  · rw [List.getElem?_append_right (Nat.le_of_not_lt hlt), List.getElem?_singleton,
      List.getElem?_eq_none (Nat.le_of_not_lt hlt)]
    by_cases heq : t = s.made.length
    · simp [heq]
    · have hne : t - s.made.length ≠ 0 := by omega
      simp [heq, hne]

/-- **What `start` leaves**: a known task that runs, unless the task that was known is over. -/
theorem watches_start_iff (s : Tasks ε) : s.start.Watches ↔ ∀ t, s.known = some t → s.Runs t := by
  cases hknown : s.known with
  | none =>
      refine ⟨fun _ => nofun, fun _ => ⟨s.made.length, (start_of_none hknown).1, ?_⟩⟩
      exact (runs_start_of_none hknown _).mpr (.inr rfl)
  | some t =>
      rw [start_of_known hknown]
      constructor
      · rintro ⟨u, hu, hruns⟩ v hv
        cases hv
        cases hu.symm.trans hknown
        exact hruns
      · exact fun h => ⟨t, hknown, h t rfl⟩

theorem known_finish (s : Tasks ε) (t : Nat) (how : Task ε) : (s.finish t how).known = s.known := by
  unfold finish
  split <;> rfl

theorem finish_of_not_runs {s : Tasks ε} {t : Nat} (h : ¬s.Runs t) (how : Task ε) :
    s.finish t how = s := by
  unfold finish
  split
  · rename_i hruns
    exact absurd hruns h
  · rfl

theorem made_finish {s : Tasks ε} {t : Nat} (h : s.Runs t) (how : Task ε) :
    (s.finish t how).made = s.made.set t how := by
  unfold finish
  split
  · rfl
  · rename_i hne
    exact absurd h hne

theorem runs_finish {s : Tasks ε} {t : Nat} (h : s.Runs t) {how : Task ε} (hhow : how ≠ .running)
    (u : Nat) : (s.finish t how).Runs u ↔ s.Runs u ∧ u ≠ t := by
  rw [Runs, made_finish h, Runs, List.getElem?_set]
  split
  · rename_i heq
    subst heq
    simp [hhow]
  · rename_i hne
    simp [Ne.symm hne]

theorem isOver_finish {s : Tasks ε} {t : Nat} (h : s.Runs t) {how : Task ε}
    (hhow : how ≠ .running) : (s.finish t how).IsOver t := by
  refine ⟨how, ?_, hhow⟩
  have hlt : t < s.made.length := (List.getElem?_eq_some_iff.mp h).1
  rw [made_finish h, List.getElem?_set_self hlt]

/-- **What the end of a `stop` leaves**: nothing is known, unless the task it has waited for went
    wrong; then nothing has changed. -/
theorem giveUp_cases (s : Tasks ε) (t : Nat) :
    (∃ e, s.made[t]? = some (.broken e) ∧ s.giveUp t = (s, some e)) ∨
      (∀ e, s.made[t]? ≠ some (.broken e)) ∧ s.giveUp t = (⟨s.made, none, nofun⟩, none) := by
  cases hmade : s.made[t]? with
  | none => exact .inr ⟨nofun, by simp [giveUp, hmade]⟩
  | some how =>
      cases how with
      | broken e => exact .inl ⟨e, rfl, by simp [giveUp, hmade, Task.fault?]⟩
      | _ => exact .inr ⟨nofun, by simp [giveUp, hmade, Task.fault?]⟩

theorem runs_giveUp (s : Tasks ε) (t u : Nat) : (s.giveUp t).1.Runs u ↔ s.Runs u := by
  rcases s.giveUp_cases t with ⟨e, -, h⟩ | ⟨-, h⟩
  · rw [h]
  · rw [h]
    rfl

end Tasks

/-! ## 2. One thing after another -/

/-- The tasks of a watcher, and for each call of `stop` that is under way the task it waits for. -/
structure Moment (ε : Type) where
  tasks : Tasks ε
  stops : List Nat

/-- What can happen next. -/
inductive Turn (ε : Type) where
  | start
  | stop
  /-- Task `t` comes to its end. -/
  | finish (t : Nat) (how : Task ε)
  /-- A call of `stop` that has waited for task `t` goes on. -/
  | resume (t : Nat)

/-- A call of `stop` comes to its end in this turn, and may pass on what went wrong in the task it
    has waited for. -/
inductive Stops : Moment ε → Turn ε → Moment ε → Option ε → Prop
  | idle {m : Moment ε} (h : m.tasks.known = none) : Stops m .stop m none
  | atOnce {m : Moment ε} {t : Nat} (h : m.tasks.known = some t) (hover : m.tasks.IsOver t) :
      Stops m .stop ⟨(m.tasks.giveUp t).1, m.stops⟩ (m.tasks.giveUp t).2
  | resume {m : Moment ε} {t : Nat} (h : t ∈ m.stops) (hover : m.tasks.IsOver t) :
      Stops m (.resume t) ⟨(m.tasks.giveUp t).1, m.stops.erase t⟩ (m.tasks.giveUp t).2

/-- The turns that can be taken, and what they lead to. -/
inductive Follows : Moment ε → Turn ε → Moment ε → Prop
  | start (m : Moment ε) : Follows m .start ⟨m.tasks.start, m.stops⟩
  /-- A call of `stop` has to wait. -/
  | wait {m : Moment ε} {t : Nat} (h : m.tasks.known = some t) (hruns : m.tasks.Runs t) :
      Follows m .stop ⟨m.tasks, t :: m.stops⟩
  | stopped {m m' : Moment ε} {turn : Turn ε} {fault : Option ε} (h : Stops m turn m' fault) :
      Follows m turn m'
  | finish {m : Moment ε} {t : Nat} (h : m.tasks.Runs t) {how : Task ε} (hhow : how ≠ .running) :
      Follows m (.finish t how) ⟨m.tasks.finish t how, m.stops⟩

/-- A call of `stop` has waited for task `t`, and gives up another one, which runs. -/
def Late (m : Moment ε) (turn : Turn ε) : Prop :=
  ∃ t u, turn = .resume t ∧ (m.tasks.giveUp t).2 = none ∧ m.tasks.known = some u ∧ m.tasks.Runs u

/-- Only a `stop` that goes on can be late. -/
theorem not_late {m : Moment ε} {turn : Turn ε} (h : ∀ t, turn ≠ .resume t) : ¬Late m turn := by
  rintro ⟨t, u, hturn, -⟩
  exact h t hturn

/-- A `stop` at its end: nothing is known any more, or it has passed something on and nothing has
    changed. -/
theorem Stops.tasks_eq {m m' : Moment ε} {turn : Turn ε} {fault : Option ε}
    (h : Stops m turn m' fault) :
    (fault = none → m'.tasks.known = none) ∧ (fault ≠ none → m'.tasks = m.tasks) := by
  cases h with
  | idle h => exact ⟨fun _ => h, fun _ => rfl⟩
  | @atOnce t h hover | @resume t h hover =>
      dsimp only
      rcases m.tasks.giveUp_cases t with ⟨e, -, hcase⟩ | ⟨-, hcase⟩ <;> rw [hcase]
      · exact ⟨nofun, fun _ => rfl⟩
      · exact ⟨fun _ => rfl, fun h => absurd rfl h⟩

/-- **A turn keeps all running tasks known exactly if it is not a late `stop`.** -/
theorem Follows.onlyKnownRuns_iff {m m' : Moment ε} {turn : Turn ε} (h : Follows m turn m')
    (hm : m.tasks.OnlyKnownRuns) : m'.tasks.OnlyKnownRuns ↔ ¬Late m turn := by
  cases h with
  | start =>
      refine iff_of_true ?_ (not_late nofun)
      cases hknown : m.tasks.known with
      | some t => rwa [Tasks.start_of_known hknown]
      | none =>
          intro t hruns
          rcases (Tasks.runs_start_of_none hknown t).mp hruns with hruns | rfl
          · cases hknown.symm.trans (hm t hruns)
          · exact (Tasks.start_of_none hknown).1
  | wait h hruns => exact iff_of_true hm (not_late nofun)
  | @finish t h how hhow =>
      refine iff_of_true (fun u hruns => ?_) (not_late nofun)
      rw [Tasks.known_finish]
      exact hm u ((Tasks.runs_finish h hhow u).mp hruns).1
  | stopped h =>
      cases h with
      | idle h => exact iff_of_true hm (not_late nofun)
      | @atOnce t h hover =>
          -- the known task is over, so none runs
          refine iff_of_true (fun u hruns => ?_) (not_late nofun)
          have hu := (m.tasks.runs_giveUp t u).mp hruns
          cases h.symm.trans (hm u hu)
          exact absurd hu hover.not_runs
      | @resume t h hover =>
          rcases m.tasks.giveUp_cases t with ⟨e, -, hcase⟩ | ⟨-, hcase⟩
          · refine iff_of_true ?_ ?_
            · rwa [hcase]
            · rintro ⟨t', u, hturn, hfault, -⟩
              cases hturn
              rw [hcase] at hfault
              cases hfault
          · -- nothing is known any more, so nothing must run
            constructor
            · rintro hm' ⟨t', u, -, -, -, hruns⟩
              have hknown := hm' u ((m.tasks.runs_giveUp t u).mpr hruns)
              rw [hcase] at hknown
              cases hknown
            · intro hlate u hruns
              have hu := (m.tasks.runs_giveUp t u).mp hruns
              exact absurd ⟨t, u, rfl, congrArg Prod.snd hcase, hm u hu, hu⟩ hlate

/-- Behind a late `stop` the next `start` makes a task beside one that runs. -/
theorem Late.start {m m' : Moment ε} {turn : Turn ε} (hlate : Late m turn)
    (h : Follows m turn m') : ∃ t u, t ≠ u ∧ m'.tasks.start.Runs t ∧ m'.tasks.start.Runs u := by
  obtain ⟨t, u, rfl, hfault, -, hruns⟩ := hlate
  cases h with
  | stopped h =>
      cases h with
      | resume h hover =>
          have hu := (m.tasks.runs_giveUp t u).mpr hruns
          have hknown : (m.tasks.giveUp t).1.known = none := by
            rcases m.tasks.giveUp_cases t with ⟨e, -, hcase⟩ | ⟨-, hcase⟩
            · rw [hcase] at hfault
              cases hfault
            · rw [hcase]
          have hlt : u < (m.tasks.giveUp t).1.made.length := (List.getElem?_eq_some_iff.mp hu).1
          exact ⟨u, _, Nat.ne_of_lt hlt, (Tasks.runs_start_of_none hknown u).mpr (.inl hu),
            (Tasks.runs_start_of_none hknown _).mpr (.inr rfl)⟩

/-- The known task went wrong, and no call of `stop` is under way. -/
def Stuck (m : Moment ε) (t : Nat) : Prop :=
  m.stops = [] ∧ m.tasks.known = some t ∧ ∃ e, m.tasks.made[t]? = some (.broken e)

theorem Stuck.isOver {m : Moment ε} {t : Nat} (h : Stuck m t) : m.tasks.IsOver t := by
  obtain ⟨-, -, e, hmade⟩ := h
  exact ⟨_, hmade, nofun⟩

/-- A known task that went wrong stays known, whatever is called. -/
theorem Stuck.follows {m m' : Moment ε} {turn : Turn ε} {t : Nat} (h : Stuck m t)
    (hturn : Follows m turn m') : Stuck m' t := by
  have hover := h.isOver
  obtain ⟨hstops, hknown, e, hmade⟩ := h
  cases hturn with
  | start =>
      rw [Stuck, Tasks.start_of_known hknown]
      exact ⟨hstops, hknown, e, hmade⟩
  | wait hknown' hruns =>
      cases hknown.symm.trans hknown'
      exact absurd hruns hover.not_runs
  | @finish u hruns how hhow =>
      have hne : u ≠ t := by
        rintro rfl
        exact hover.not_runs hruns
      refine ⟨hstops, (Tasks.known_finish ..).trans hknown, e, ?_⟩
      rw [Tasks.made_finish hruns, List.getElem?_set_ne hne, hmade]
  | stopped hturn =>
      cases hturn with
      | idle => exact ⟨hstops, hknown, e, hmade⟩
      | @atOnce u hknown' hover' =>
          cases hknown.symm.trans hknown'
          rcases m.tasks.giveUp_cases t with ⟨e', -, hcase⟩ | ⟨hsound, -⟩
          · rw [hcase]
            exact ⟨hstops, hknown, e, hmade⟩
          · exact absurd hmade (hsound e)
      | resume hmem =>
          rw [hstops] at hmem
          cases hmem

/-! ## 3. From the beginning -/

/-- What has happened to a watcher up to now: each turn with the moment before it, the last one in
    front. -/
inductive Run : List (Moment ε × Turn ε) → Moment ε → Prop
  | fresh : Run [] ⟨.empty, []⟩
  | turn {past : List (Moment ε × Turn ε)} {m m' : Moment ε} {turn : Turn ε} (h : Run past m)
      (hturn : Follows m turn m') : Run ((m, turn) :: past) m'

/-- All moments up to now. -/
def moments (past : List (Moment ε × Turn ε)) (m : Moment ε) : List (Moment ε) :=
  m :: past.map Prod.fst

theorem onlyKnownRuns_empty : (Tasks.empty : Tasks ε).OnlyKnownRuns := by
  intro t hruns
  cases hruns

/-- **All running tasks have always been known exactly if no `stop` was late.** -/
theorem Run.onlyKnownRuns_iff {past : List (Moment ε × Turn ε)} {m : Moment ε} (h : Run past m) :
    (∀ n ∈ moments past m, n.tasks.OnlyKnownRuns) ↔ ∀ x ∈ past, ¬Late x.1 x.2 := by
  induction h with
  | fresh => exact ⟨fun _ => nofun, fun _ => List.forall_mem_singleton.mpr onlyKnownRuns_empty⟩
  | @turn past m m' turn h hturn ih =>
      rw [List.forall_mem_cons, ← ih]
      unfold moments
      rw [List.map_cons, List.forall_mem_cons]
      constructor
      · rintro ⟨hm', hpast⟩
        exact ⟨(hturn.onlyKnownRuns_iff (hpast m List.mem_cons_self)).mp hm', hpast⟩
      · rintro ⟨hlate, hpast⟩
        exact ⟨(hturn.onlyKnownRuns_iff (hpast m List.mem_cons_self)).mpr hlate, hpast⟩

/-- `stop` has never been called while another call of it was under way. -/
def OneStop (past : List (Moment ε × Turn ε)) : Prop := ∀ x ∈ past, x.2 = .stop → x.1.stops = []

/-- Where there is one `stop` at a time, it waits for the known task. -/
theorem Run.waits_for_known {past : List (Moment ε × Turn ε)} {m : Moment ε} (h : Run past m)
    (hone : OneStop past) : m.stops = [] ∨ ∃ t, m.stops = [t] ∧ m.tasks.known = some t := by
  induction h with
  | fresh => exact .inl rfl
  | @turn past m m' turn h hturn ih =>
      obtain ⟨hstop, hpast⟩ := List.forall_mem_cons.mp hone
      have hm := ih hpast
      cases hturn with
      | start =>
          refine hm.imp id ?_
          rintro ⟨t, hstops, hknown⟩
          exact ⟨t, hstops, by rw [Tasks.start_of_known hknown, hknown]⟩
      | @wait t hknown hruns =>
          have hnil : m.stops = [] := hstop rfl
          exact .inr ⟨t, by rw [hnil], hknown⟩
      | @finish t hruns how hhow =>
          refine hm.imp id ?_
          rintro ⟨u, hstops, hknown⟩
          exact ⟨u, hstops, (Tasks.known_finish ..).trans hknown⟩
      | stopped hstops =>
          cases hstops with
          | idle hknown => exact .inl (hstop rfl)
          | atOnce hknown hover => exact .inl (hstop rfl)
          | @resume t hmem hover =>
              rcases hm with hnil | ⟨u, hsingle, -⟩
              · rw [hnil] at hmem
                cases hmem
              · rw [hsingle] at hmem
                cases List.mem_singleton.mp hmem
                exact .inl (by simp [hsingle])

/-- **One `stop` at a time is never late.** -/
theorem Run.not_late {past : List (Moment ε × Turn ε)} {m : Moment ε} (h : Run past m)
    (hone : OneStop past) : ∀ x ∈ past, ¬Late x.1 x.2 := by
  induction h with
  | fresh => exact nofun
  | @turn past m m' turn h hturn ih =>
      have hpast := (List.forall_mem_cons.mp hone).2
      refine List.forall_mem_cons.mpr ⟨?_, ih hpast⟩
      rintro ⟨t, u, rfl, -, hknown, hruns⟩
      cases hturn with
      | stopped hstops =>
          cases hstops with
          | resume hmem hover =>
              rcases h.waits_for_known hpast with hnil | ⟨v, hsingle, hv⟩
              · rw [hnil] at hmem
                cases hmem
              · rw [hsingle] at hmem
                cases List.mem_singleton.mp hmem
                cases hknown.symm.trans hv
                exact hover.not_runs hruns

/-! ## 4. Calls made one after another -/

theorem Watcher.run_over (w : Watcher) (files : Workspace) (batches : List Batch) :
    (w.run files batches).2.2 ≠ .running := by
  induction batches generalizing files with
  | nil => exact nofun
  | cons b more ih =>
      rw [Watcher.run]
      dsimp only
      generalize w.take (b.applyTo files) b = taken
      obtain ⟨events, task⟩ := taken
      cases task with
      | running => exact ih (b.applyTo files)
      | _ => exact nofun

namespace Session

/-- The session after calls, whether they fail or not. -/
def through (batches : List Batch) (s : Session) (calls : List Call) : Session :=
  calls.foldl (fun s c => (s.call batches c).session) s

/-- The tasks of the session have come about with one `stop` at a time, and none is under way. -/
def InTurn (s : Session) : Prop :=
  ∃ past, Run past ⟨s.watcher.tasks, []⟩ ∧ OneStop past

/-- **A call is made of turns.** -/
theorem InTurn.call {s : Session} (h : s.InTurn) (batches : List Batch) (c : Call) :
    (s.call batches c).session.InTurn := by
  obtain ⟨past, hrun, hone⟩ := h
  cases c with
  | rescan =>
      show s.rescan.session.InTurn
      unfold rescan
      split <;> exact ⟨past, hrun, hone⟩
  | start =>
      exact ⟨_, hrun.turn (.start _), List.forall_mem_cons.mpr ⟨fun _ => rfl, hone⟩⟩
  | wait =>
      show (s.wait batches).session.InTurn
      unfold wait
      split
      · exact ⟨past, hrun, hone⟩
      · rename_i t hknown
        split
        · rename_i hmade
          have hruns : s.watcher.tasks.Runs t := hmade
          have hover := s.watcher.run_over s.files batches
          have hfinish : Follows ⟨s.watcher.tasks, []⟩ _ _ := .finish hruns hover
          exact ⟨_, hrun.turn hfinish, List.forall_mem_cons.mpr ⟨nofun, hone⟩⟩
        · exact ⟨past, hrun, hone⟩
  | stop =>
      show s.stop.session.InTurn
      unfold stop
      split
      · exact ⟨past, hrun, hone⟩
      · rename_i t hknown
        rcases Tasks.runs_or_isOver hknown with hruns | hover
        · -- the call waits, the task is given up, and the call goes on
          have hgivenUp : (Task.givenUp : Task Unexpandable) ≠ .running := nofun
          have hwaiting := (hrun.turn (.wait hknown hruns)).turn (.finish hruns hgivenUp)
          have hresumed := hwaiting.turn
            (.stopped (.resume List.mem_cons_self (Tasks.isOver_finish hruns hgivenUp)))
          rw [List.erase_cons_head] at hresumed
          exact ⟨_, hresumed, List.forall_mem_cons.mpr ⟨nofun, List.forall_mem_cons.mpr ⟨nofun,
            List.forall_mem_cons.mpr ⟨fun _ => rfl, hone⟩⟩⟩⟩
        · rw [Tasks.finish_of_not_runs hover.not_runs]
          exact ⟨_, hrun.turn (.stopped (.atOnce hknown hover)),
            List.forall_mem_cons.mpr ⟨fun _ => rfl, hone⟩⟩

theorem InTurn.through {s : Session} (h : s.InTurn) (batches : List Batch) (calls : List Call) :
    (s.through batches calls).InTurn := by
  induction calls generalizing s with
  | nil => exact h
  | cons c more ih => exact ih (h.call batches c)

theorem inTurn_idle (directory : Path) (exclude : List String) (files : Workspace) :
    InTurn ⟨.idle directory exclude, files⟩ := ⟨[], .fresh, nofun⟩

end Session

/-! ## 5. The main statement -/

/-- The second moment comes after the first one, or is the same. -/
def Later : Moment ε → Moment ε → Prop :=
  Relation.ReflTransGen fun m m' => ∃ turn, Follows m turn m'

theorem Stuck.later {m m' : Moment ε} {t : Nat} (h : Stuck m t) (hlater : Later m m') :
    Stuck m' t := by
  induction hlater with
  | refl => exact h
  | tail _ hturn ih =>
      obtain ⟨turn, hturn⟩ := hturn
      exact ih.follows hturn

/-- **Starting and stopping a watcher.** Calls of `start` and `stop` may come at any time, and tasks
    come to their ends when they do.

    * Behind a `start` a task that runs is known, exactly if the task known before it, if any, was
      still running.
    * Behind a `stop` no task is known, exactly if it has not passed on what went wrong in a task,
      or none was known before its end. If it has not, the next `start` makes a task; if it has,
      nothing has changed. So a watcher whose task went wrong is never started again.
    * No task ever runs but the known one, and so at most one, exactly if no `stop` has given up a
      task that ran while it had waited for another one. Behind such a one the next `start` makes a
      second task that runs. It takes two calls of `stop` that are under way at once; so it does not
      come about by calls that are made one after another. -/
theorem starts_and_stops {past : List (Moment ε × Turn ε)} {m : Moment ε} (h : Run past m) :
    (m.tasks.start.Watches ↔ ∀ t, m.tasks.known = some t → m.tasks.Runs t) ∧
    (∀ turn m' fault, Stops m turn m' fault →
      (m'.tasks.known = none ↔ fault = none ∨ m.tasks.known = none) ∧
      (fault = none → m'.tasks.start.Watches) ∧
      (fault ≠ none → m'.tasks = m.tasks)) ∧
    (∀ t, Stuck m t → ∀ m', Later m m' → m'.tasks.known = some t ∧ ¬m'.tasks.Watches) ∧
    ((∀ n ∈ moments past m, n.tasks.OnlyKnownRuns) ↔ ∀ x ∈ past, ¬Late x.1 x.2) ∧
    (∀ turn m', Late m turn → Follows m turn m' →
      ∃ t u, t ≠ u ∧ m'.tasks.start.Runs t ∧ m'.tasks.start.Runs u) ∧
    (OneStop past →
      ∀ n ∈ moments past m, ∀ t u, n.tasks.Runs t → n.tasks.Runs u → t = u) ∧
    ∀ directory exclude files batches calls,
      (Session.through batches ⟨.idle directory exclude, files⟩ calls).InTurn := by
  refine ⟨m.tasks.watches_start_iff, ?_, ?_, h.onlyKnownRuns_iff, fun turn m' => Late.start, ?_, ?_⟩
  · intro turn m' fault hstops
    obtain ⟨hdone, hpassed⟩ := hstops.tasks_eq
    refine ⟨⟨fun hnone => ?_, ?_⟩, fun hfault => ?_, hpassed⟩
    · by_cases hfault : fault = none
      · exact .inl hfault
      · exact .inr (by rwa [← hpassed hfault])
    · rintro (hfault | hnone)
      · exact hdone hfault
      · by_cases hfault : fault = none
        · exact hdone hfault
        · rwa [hpassed hfault]
    · refine (Tasks.watches_start_iff _).mpr ?_
      rw [hdone hfault]
      exact nofun
  · intro t hstuck m' hlater
    have hstuck' := hstuck.later hlater
    refine ⟨hstuck'.2.1, ?_⟩
    rintro ⟨u, hu, hruns⟩
    cases hstuck'.2.1.symm.trans hu
    exact hstuck'.isOver.not_runs hruns
  · intro hone n hn t u ht hu
    have honly := h.onlyKnownRuns_iff.mpr (h.not_late hone) n hn
    exact Option.some.inj ((honly t ht).symm.trans (honly u hu))
  · intro directory exclude files batches calls
    exact (Session.inTurn_idle directory exclude files).through batches calls

/-- The task has come to its end on its own. -/
def ranOut : Moment Unexpandable := ⟨⟨[.ended], some 0, by decide⟩, []⟩

/-- Two calls of `stop` have waited for a task. One of them has gone on, and the watcher has been
    started again before the other one does so. -/
def restartedBetween : Moment Unexpandable := ⟨⟨[.givenUp, .running], some 1, by decide⟩, [0]⟩

/-- The first task runs, and as many calls of `stop` wait for it. -/
def started (stops : Nat) : Moment Unexpandable :=
  ⟨⟨[.running], some 0, by decide⟩, List.replicate stops 0⟩

theorem runs_started (stops : Nat) : (started stops).tasks.Runs 0 := rfl

theorem exists_run_ranOut : ∃ past, Run past ranOut := by
  have hstarted : Run _ (started 0) := Run.fresh.turn (.start _)
  have hends : Follows (started 0) (.finish 0 .ended) ranOut := .finish (runs_started 0) nofun
  exact ⟨_, hstarted.turn hends⟩

theorem exists_run_restartedBetween : ∃ past, Run past restartedBetween := by
  have hstarted : Run _ (started 0) := Run.fresh.turn (.start _)
  have hwaits : Follows (started 0) .stop (started 1) := .wait rfl (runs_started 0)
  have hwaitsToo : Follows (started 1) .stop (started 2) := .wait rfl (runs_started 1)
  have hends : Follows (started 2) (.finish 0 .givenUp) ⟨⟨[.givenUp], some 0, by decide⟩, [0, 0]⟩ :=
    .finish (runs_started 2) nofun
  have hstopped : Follows ⟨⟨[.givenUp], some 0, by decide⟩, [0, 0]⟩ (.resume 0)
      (⟨⟨[.givenUp], none, nofun⟩, [0]⟩ : Moment Unexpandable) :=
    .stopped (.resume List.mem_cons_self ⟨.givenUp, rfl, nofun⟩)
  have hagain : Follows ⟨⟨[.givenUp], none, nofun⟩, [0]⟩ .start restartedBetween := .start _
  exact ⟨_, ((((hstarted.turn hwaits).turn hwaitsToo).turn hends).turn hstopped).turn hagain⟩

/-- A task that has run out keeps the watcher from being started again; two restarts that overlap
    leave two tasks running. -/
theorem starts_and_stops_go_wrong :
    ((∃ past, Run past ranOut) ∧ ¬ranOut.tasks.start.Watches) ∧
    (∃ past, Run past restartedBetween) ∧ Late restartedBetween (.resume 0) ∧
    ∃ m', Follows restartedBetween (.resume 0) m' ∧
      ∃ t u, t ≠ u ∧ m'.tasks.start.Runs t ∧ m'.tasks.start.Runs u := by
  obtain ⟨past, hranOut⟩ := exists_run_ranOut
  obtain ⟨past', hbetween⟩ := exists_run_restartedBetween
  obtain ⟨hstart, -⟩ := starts_and_stops hranOut
  obtain ⟨-, -, -, -, hlateStart, -⟩ := starts_and_stops hbetween
  have hlate : Late restartedBetween (.resume 0) := ⟨0, 1, rfl, rfl, rfl, rfl⟩
  have hfollows : Follows restartedBetween (.resume 0) _ :=
    .stopped (.resume List.mem_cons_self ⟨.givenUp, rfl, nofun⟩)
  refine ⟨⟨⟨past, hranOut⟩, fun hwatches => ?_⟩, ⟨past', hbetween⟩, hlate, _, hfollows,
    hlateStart _ _ hlate hfollows⟩
  cases hstart.mp hwatches 0 rfl

end Marginalia
