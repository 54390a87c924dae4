import Marginalia.Watch

/-!
# One report for every batch

While its task runs, a watcher scans after every batch with changes that matter, and whatever comes
of one scan has no influence on what is told of the others:

* `Arrival`: the paths of a batch, with the outcome of the scan that is made after it. What a
  watcher lets others know depends on these alone (`Watcher.follow`);
* `Watcher.follow_eq_flatMap`: as long as every scan gives a report or finds something that it
  cannot read, the task runs to its end, and every arrival leads to its own events;
* `Watcher.run_eq_follow`: with files that change from batch to batch, the outcome is that of a scan
  of the files as they are after the batch (`Watcher.arrivals`).

Main statement: `one_report_per_batch`.
-/

namespace Marginalia

/-! ## 1. What arrives at a watcher -/

/-- The paths that have changed, and the outcome of the scan that is made then. -/
structure Arrival where
  changed : List Path
  outcome : Except ScanFault Report

namespace Arrival

/-- The scan gave a report, or found something that it could not read. -/
def isBearable (a : Arrival) : Bool :=
  match a.outcome with
  | .error (.unexpandable _) => false
  | _ => true

/-- What is handed on: nothing, if the scan failed. -/
def report? (a : Arrival) : Option (List Path × Report) :=
  match a.outcome with
  | .ok r => some (a.changed, r)
  | .error _ => none

end Arrival

/-- What is handed on among events. -/
def reportsOf (events : List WatchEvent) : List (List Path × Report) :=
  events.filterMap fun
    | .reported changed r => some (changed, r)
    | _ => none

theorem reportsOf_append (events more : List WatchEvent) :
    reportsOf (events ++ more) = reportsOf events ++ reportsOf more :=
  List.filterMap_append

namespace Watcher

variable (w : Watcher)

/-- A report is handed on if there is one, and only once. -/
theorem reportsOf_react (a : Arrival) :
    reportsOf (w.react a.changed a.outcome).1 = a.report?.toList := by
  obtain ⟨changed, outcome⟩ := a
  cases outcome with
  | ok r => rfl
  | error f => cases f <;> rfl

theorem react_running {a : Arrival} (h : a.isBearable = true) :
    (w.react a.changed a.outcome).2 = .running := by
  obtain ⟨changed, outcome⟩ := a
  cases outcome with
  | ok r => rfl
  | error f =>
      cases f with
      | unreadable f => rfl
      | unexpandable e => cases h

/-- What a watcher lets others know as one thing after another arrives, and how its task stands
    then. -/
def follow : List Arrival → List WatchEvent × Task Unexpandable
  | [] => ([], .ended)
  | a :: more =>
    match w.react a.changed a.outcome with
    | (events, .running) =>
      let (rest, task) := follow more
      (events ++ rest, task)
    | (events, task) => (events, task)

/-- **Every arrival leads to its own events**, and the task runs to its end. -/
theorem follow_eq_flatMap {arrived : List Arrival} (h : ∀ a ∈ arrived, a.isBearable = true) :
    w.follow arrived =
      (arrived.flatMap fun a => (w.react a.changed a.outcome).1, .ended) := by
  induction arrived with
  | nil => rfl
  | cons a more ih =>
      obtain ⟨ha, hmore⟩ := List.forall_mem_cons.mp h
      have hrunning := w.react_running ha
      rw [follow, List.flatMap_cons]
      generalize w.react a.changed a.outcome = reaction at hrunning ⊢
      obtain ⟨events, task⟩ := reaction
      dsimp only at hrunning
      subst hrunning
      rw [ih hmore]

theorem reportsOf_follow {arrived : List Arrival} (h : ∀ a ∈ arrived, a.isBearable = true) :
    reportsOf (w.follow arrived).1 = arrived.filterMap Arrival.report? := by
  rw [w.follow_eq_flatMap h]
  clear h
  induction arrived with
  | nil => rfl
  | cons a more ih =>
      rw [List.flatMap_cons, reportsOf_append, ih, w.reportsOf_react, List.filterMap_cons]
      cases a.report? <;> rfl

end Watcher

/-! ## 2. Files that change from batch to batch -/

/-- The files after batches. -/
def filesAfter (files : Workspace) (batches : List Batch) : Workspace :=
  batches.foldl (fun files b => b.applyTo files) files

theorem nodup_eraseDups {α : Type} [DecidableEq α] (items : List α) : items.eraseDups.Nodup := by
  induction hn : items.length using Nat.strongRecOn generalizing items with
  | ind n ih =>
      cases items with
      | nil => exact List.nodup_nil
      | cons a more =>
          have hshort : (more.filter fun b => !b == a).length < n := by
            rw [← hn, List.length_cons]
            exact Nat.lt_succ_of_le (List.length_filter_le _ more)
          rw [List.eraseDups_cons]
          refine List.nodup_cons.mpr ⟨?_, ih _ hshort _ rfl⟩
          simp [List.mem_eraseDups]

/-- The paths of a batch: each of those that matter, once. -/
theorem mem_relevant (b : Batch) (exclude : List String) :
    (b.relevant exclude).Nodup ∧
      ∀ p, p ∈ b.relevant exclude ↔
        ∃ c ∈ b.changes, changeMatters exclude c = true ∧ Path.ofString c = p := by
  refine ⟨nodup_eraseDups _, fun p => ?_⟩
  rw [Batch.relevant, List.mem_eraseDups, List.mem_map]
  simp only [List.mem_filter, and_assoc]

namespace Watcher

variable (w : Watcher)

/-- What arrives with a batch, given the files after it: nothing, if no change in it matters. -/
def arrival? (files : Workspace) (b : Batch) : Option Arrival :=
  match b.relevant w.exclude with
  | [] => none
  | changed => some ⟨changed, w.scan files⟩

/-- What arrives with one batch after another. -/
def arrivals : Workspace → List Batch → List Arrival
  | _, [] => []
  | files, b :: more => (w.arrival? (b.applyTo files) b).toList ++ arrivals (b.applyTo files) more

theorem arrivals_append (files : Workspace) (front back : List Batch) :
    w.arrivals files (front ++ back) =
      w.arrivals files front ++ w.arrivals (filesAfter files front) back := by
  induction front generalizing files with
  | nil => rfl
  | cons b front ih =>
      rw [List.cons_append, arrivals, arrivals, ih, List.append_assoc]
      rfl

/-- A batch is taken as what arrives with it. -/
theorem take_eq (files : Workspace) (b : Batch) :
    w.take files b = match w.arrival? files b with
      | none => ([], .running)
      | some a => w.react a.changed a.outcome := by
  unfold take arrival?
  cases b.relevant w.exclude <;> rfl

/-- **A task follows what arrives with the batches.** -/
theorem run_eq_follow (files : Workspace) (batches : List Batch) :
    (w.run files batches).2 = w.follow (w.arrivals files batches) := by
  induction batches generalizing files with
  | nil => rfl
  | cons b more ih =>
      have htake := w.take_eq (b.applyTo files) b
      rw [run, arrivals]
      dsimp only
      cases harrival : w.arrival? (b.applyTo files) b with
      | none =>
          rw [harrival] at htake
          rw [htake, Option.toList_none, List.nil_append, ← ih]
          rfl
      | some a =>
          rw [harrival] at htake
          dsimp only at htake
          rw [htake, Option.toList_some, List.singleton_append, follow, ← ih]
          generalize w.react a.changed a.outcome = reaction
          obtain ⟨events, task⟩ := reaction
          cases task <;> rfl

/-! ## 3. The main statement -/

/-- **One report for every batch that can be scanned.** A watcher hands on a report for each arrival
    whose scan gave one, once, in order, with the paths that came with it; and nothing for the
    others, as long as they failed because something could not be read. The task runs to its end,
    and without one that failed exactly the same is handed on. So of batches each adds the report on
    the files as they are after it, together with its paths, each once; or nothing, if no change in
    it matters or the scan fails. -/
theorem one_report_per_batch :
    (∀ arrived : List Arrival, (∀ a ∈ arrived, a.isBearable = true) →
      reportsOf (w.follow arrived).1 = arrived.filterMap Arrival.report? ∧
      (w.follow arrived).2 = .ended ∧
      ∀ front a back, arrived = front ++ a :: back → a.report? = none →
        reportsOf (w.follow (front ++ back)).1 = reportsOf (w.follow arrived).1) ∧
    (∀ files batches, (w.run files batches).2 = w.follow (w.arrivals files batches)) ∧
    (∀ files front b back, let now := filesAfter files (front ++ [b])
      (∀ a ∈ w.arrivals files (front ++ b :: back), a.isBearable = true) →
      reportsOf (w.run files (front ++ b :: back)).2.1 =
        reportsOf (w.run files front).2.1 ++ ((w.arrival? now b).bind Arrival.report?).toList ++
          reportsOf (w.run now back).2.1) ∧
    ∀ b : Batch, (b.relevant w.exclude).Nodup ∧
      ∀ p, p ∈ b.relevant w.exclude ↔
        ∃ c ∈ b.changes, changeMatters w.exclude c = true ∧ Path.ofString c = p := by
  refine ⟨fun arrived h => ⟨w.reportsOf_follow h, ?_, ?_⟩, w.run_eq_follow, ?_,
    fun b => mem_relevant b w.exclude⟩
  · rw [w.follow_eq_flatMap h]
  · rintro front a back rfl hnone
    have hless : ∀ a ∈ front ++ back, a.isBearable = true := fun x hx => by
      refine h x ?_
      rcases List.mem_append.mp hx with hx | hx
      · exact List.mem_append_left _ hx
      · exact List.mem_append_right _ (List.mem_cons_of_mem a hx)
    rw [w.reportsOf_follow h, w.reportsOf_follow hless]
    simp [hnone]
  · intro files front b back now h
    have hsplit : w.arrivals files (front ++ b :: back) =
        w.arrivals files front ++ ((w.arrival? now b).toList ++ w.arrivals now back) := by
      have hnow : now = b.applyTo (filesAfter files front) := List.foldl_append
      rw [arrivals_append, arrivals, hnow]
    rw [run_eq_follow, run_eq_follow, run_eq_follow]
    rw [hsplit] at h ⊢
    have hfront := List.forall_mem_append.mp h
    have hback := List.forall_mem_append.mp hfront.2
    rw [w.reportsOf_follow h, w.reportsOf_follow hfront.1, w.reportsOf_follow hback.2,
      List.filterMap_append, List.filterMap_append, List.append_assoc]
    cases w.arrival? now b with
    | none => rfl
    | some a => cases harrival : a.report? <;> simp [harrival]

/-- A watcher of the directory `s`. -/
def ofSources : Watcher := idle (Path.ofString "s") ["vendor"]

/-- A file below `s`, in the directory in which the paths start. -/
def oneSource : Workspace :=
  ⟨FileTree.empty.write ["s", "a.php"] (.file "<?php".toUTF8.toList), []⟩

/-- The directory vanishes, a file is written in it again, and another one where nobody looks. -/
def lostAndFound : List Batch :=
  [⟨[], [Path.ofString "s"], ["s/a.php"]⟩,
   ⟨[(Path.ofString "s/b.php", .file "<?php".toUTF8.toList)], [],
     ["s/b.php", "s/b.php", "s/c.php"]⟩,
   ⟨[(Path.ofString "s/vendor/d.php", .file [])], [], ["s/vendor/d.php"]⟩]

theorem one_report_of_lostAndFound :
    (∀ a ∈ ofSources.arrivals oneSource lostAndFound, a.isBearable = true) ∧
    (ofSources.arrivals oneSource lostAndFound).map (·.changed) =
      [[Path.ofString "s/a.php"], [Path.ofString "s/b.php", Path.ofString "s/c.php"]] ∧
    (reportsOf (ofSources.run oneSource lostAndFound).2.1).map Prod.fst =
      [[Path.ofString "s/b.php", Path.ofString "s/c.php"]] ∧
    (ofSources.run oneSource lostAndFound).2.2 = .ended := by
  have hbearable : ∀ a ∈ ofSources.arrivals oneSource lostAndFound, a.isBearable = true := by
    decide +kernel
  obtain ⟨hfollow, hrun, -⟩ := one_report_per_batch ofSources
  obtain ⟨hreports, hended, -⟩ := hfollow _ hbearable
  refine ⟨hbearable, by decide +kernel, ?_, ?_⟩
  · rw [hrun, hreports]
    decide +kernel
  · rw [hrun, hended]

end Watcher

end Marginalia
