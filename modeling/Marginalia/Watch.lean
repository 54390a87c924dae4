import Marginalia.Report

/-!
# Watching a directory

A watcher keeps the report on a directory current. Changes come in batches:

* of a batch only the changes that matter count; a batch without any is passed over in silence
  (`Batch.relevant`);
* after any other batch the directory is scanned again, and the new report is handed on with the
  paths that changed, each once. A directory that cannot be read is logged and the watcher goes on;
  anything else that goes wrong ends its task (`Watcher.react`);
* a watcher knows of at most one of its tasks. `start` makes one if none is known, `wait` lets it
  run to its end, `stop` gives it up. A task that has come to its end is still known, so starting
  again takes a `stop` before it; and a task that went wrong says so to everybody who waits for it,
  `stop` included, which then leaves it where it is (`Tasks`).
-/

namespace Marginalia

/-! ## 1. Batches of changes -/

/-- What happens to the files at one time, and the paths for which changes are announced. -/
structure Batch where
  writes : List (Path × Entry)
  removals : List Path
  changes : List String

/-- The files after a batch. -/
def Batch.applyTo (b : Batch) (w : Workspace) : Workspace :=
  b.removals.foldl Workspace.remove (b.writes.foldl (fun w f => w.write f.1 f.2) w)

/-- The distinct paths among the changes that matter. -/
def Batch.relevant (b : Batch) (exclude : List String) : List Path :=
  ((b.changes.filter (changeMatters exclude)).map Path.ofString).eraseDups

/-! ## 2. Reacting to a batch -/

/-- What a watcher lets others know. -/
inductive WatchEvent where
  /-- A task has been started. -/
  | watching (directory : Path)
  /-- A scan is made because so many files changed. -/
  | rescanning (directory : Path) (count : Nat)
  /-- The scan failed. -/
  | failed (directory : Path)
  /-- A report is handed on, with the paths that changed. -/
  | reported (changed : List Path) (report : Report)

/-- The level and the text of what is logged about an event. -/
def WatchEvent.logLine? : WatchEvent → Option (String × String)
  | .watching d => some ("INFO", "Watching " ++ d.text ++ " for PHP changes")
  | .rescanning d n =>
    some ("INFO", "Rescanning " ++ d.text ++ " after " ++ natText n ++ " changed file(s)")
  | .failed d => some ("ERROR", "Rescan of " ++ d.text ++ " failed")
  | .reported _ _ => none

/-- How a task stands. -/
inductive Task (ε : Type) where
  /-- It has not come to its end. -/
  | running
  /-- There are no more batches. -/
  | ended
  /-- It was given up. -/
  | givenUp
  /-- It went wrong. -/
  | broken (e : ε)
deriving DecidableEq, Repr

/-- What went wrong in a task. -/
def Task.fault? {ε : Type} : Task ε → Option ε
  | .broken e => some e
  | _ => none

/-- The tasks that have been made, in the order of their making, and which of them is known. -/
structure Tasks (ε : Type) where
  made : List (Task ε)
  known : Option Nat
  known_lt : ∀ t ∈ known, t < made.length

namespace Tasks

variable {ε : Type}

/-- No task has been made. -/
def empty : Tasks ε := ⟨[], none, nofun⟩

/-- Makes a task, unless one is known. -/
def start (s : Tasks ε) : Tasks ε :=
  match s.known with
  | none => ⟨s.made ++ [.running], some s.made.length, by simp⟩
  | some _ => s

/-- Task `t` comes to its end, unless it has done so already. -/
def finish (s : Tasks ε) (t : Nat) (how : Task ε) : Tasks ε :=
  match s.made[t]? with
  | some .running => ⟨s.made.set t how, s.known, by simpa using s.known_lt⟩
  | _ => s

/-- Somebody who has waited for the end of task `t` gives up the known task; but if task `t` went
    wrong, this is passed on to him, and he gives up nothing. -/
def giveUp (s : Tasks ε) (t : Nat) : Tasks ε × Option ε :=
  match s.made[t]?.bind Task.fault? with
  | some e => (s, some e)
  | none => (⟨s.made, none, nofun⟩, none)

end Tasks

/-- Somebody who watches a directory. -/
structure Watcher where
  directory : Path
  exclude : List String
  tasks : Tasks Unexpandable

namespace Watcher

/-- A watcher that has not been started. -/
def idle (directory : Path) (exclude : List String) : Watcher := ⟨directory, exclude, .empty⟩

/-- Scans the directory. -/
def scan (w : Watcher) (files : Workspace) : Except ScanFault Report :=
  files.scan w.exclude [w.directory.text]

/-- What the outcome of a scan after changes leads to, and how the task stands after it. -/
def react (w : Watcher) (changed : List Path) : Except ScanFault Report →
    List WatchEvent × Task Unexpandable
  | .ok r => ([.rescanning w.directory changed.length, .reported changed r], .running)
  | .error (.unreadable _) =>
    ([.rescanning w.directory changed.length, .failed w.directory], .running)
  | .error (.unexpandable e) => ([.rescanning w.directory changed.length], .broken e)

/-- What a batch leads to. -/
def take (w : Watcher) (files : Workspace) (b : Batch) : List WatchEvent × Task Unexpandable :=
  match b.relevant w.exclude with
  | [] => ([], .running)
  | changed => w.react changed (w.scan files)

/-- Lets the task run: one batch after another, until it goes wrong or there are no more. -/
def run (w : Watcher) :
    Workspace → List Batch → Workspace × List WatchEvent × Task Unexpandable
  | files, [] => (files, [], .ended)
  | files, b :: more =>
    let now := b.applyTo files
    match w.take now b with
    | (events, .running) =>
      let (last, rest, task) := w.run now more
      (last, events ++ rest, task)
    | (events, task) => (now, events, task)

end Watcher

/-! ## 3. Calls -/

/-- What can be asked of a watcher. -/
inductive Call where
  | rescan
  | start
  | wait
  | stop
deriving DecidableEq, Repr

/-- A watcher and the files it watches. -/
structure Session where
  watcher : Watcher
  files : Workspace

/-- The outcome of a call: what it leaves, what it let others know, and whether it failed. -/
structure Called where
  session : Session
  events : List WatchEvent
  fault : Option ScanFault

namespace Session

/-- The session with other tasks. -/
def withTasks (s : Session) (tasks : Tasks Unexpandable) : Session :=
  { s with watcher := { s.watcher with tasks } }

/-- Scans now, and reports without any changes. -/
def rescan (s : Session) : Called :=
  match s.watcher.scan s.files with
  | .ok r => ⟨s, [.reported [] r], none⟩
  | .error e => ⟨s, [], some e⟩

/-- Starts a task, unless one is known. -/
def start (s : Session) : Called :=
  let events := if s.watcher.tasks.known.isNone then [.watching s.watcher.directory] else []
  ⟨s.withTasks s.watcher.tasks.start, events, none⟩

/-- Waits for the end of the known task; all batches arrive in the meantime. -/
def wait (batches : List Batch) (s : Session) : Called :=
  match s.watcher.tasks.known with
  | none => ⟨s, [], none⟩
  | some t => match s.watcher.tasks.made[t]? with
    | some .running =>
      let (files, events, task) := s.watcher.run s.files batches
      let after := { s with files }.withTasks (s.watcher.tasks.finish t task)
      ⟨after, events, task.fault?.map .unexpandable⟩
    | state => ⟨s, [], (state.bind Task.fault?).map .unexpandable⟩

/-- Gives the known task up, waiting for its end. -/
def stop (s : Session) : Called :=
  match s.watcher.tasks.known with
  | none => ⟨s, [], none⟩
  | some t =>
    let (tasks, fault) := (s.watcher.tasks.finish t .givenUp).giveUp t
    ⟨s.withTasks tasks, [], fault.map .unexpandable⟩

/-- Makes a call. -/
def call (batches : List Batch) (s : Session) : Call → Called
  | .rescan => s.rescan
  | .start => s.start
  | .wait => s.wait batches
  | .stop => s.stop

/-- Makes calls one after another and lists what each of them let others know; the first one that
    fails is the last. -/
def calls (batches : List Batch) :
    Session → List Call → List (Call × List WatchEvent) × Option ScanFault
  | _, [] => ([], none)
  | s, c :: more =>
    let made := s.call batches c
    match made.fault with
    | some e => ([(c, made.events)], some e)
    | none =>
      let (rest, fault) := made.session.calls batches more
      ((c, made.events) :: rest, fault)

end Session

/-- The texts of paths, sorted. -/
def sortedTexts (paths : List Path) : List String :=
  (paths.map (·.text)).mergeSort fun a b => decide (a ≤ b)

end Marginalia
