import Marginalia.Path

/-!
# File trees

A file tree is known by its entries: what stands at an address, the names from the root down.

* the entries are kept in the order of their addresses, name by name, and no address occurs twice
  (`FileTree.ordered`), so whatever is listed comes out sorted and once;
* the root is a directory without an entry of its own;
* writing makes the directories above (`FileTree.write`), removing takes everything below with it
  (`FileTree.remove`);
* a path leads to an address step by step, from the directory that relative paths start in. Every
  step leaves a directory; a double dot leads to the directory above (`Workspace.locate`).
-/

namespace Marginalia

/-! ## 1. Ordered entries -/

/-- The names that lead from the root to an entry. -/
abbrev Address := List String

/-- What stands at an address. -/
inductive Entry where
  | directory
  | file (bytes : List UInt8)
deriving DecidableEq, Repr

/-- Puts an entry at its place in the order, instead of the one with its address. -/
def enter (a : Address) (e : Entry) : List (Address × Entry) → List (Address × Entry)
  | [] => [(a, e)]
  | (b, f) :: more =>
    if a < b then (a, e) :: (b, f) :: more
    else if a = b then (a, e) :: more
    else (b, f) :: enter a e more

theorem mem_enter {a : Address} {e : Entry} {x : Address × Entry} :
    ∀ {entries : List (Address × Entry)}, x ∈ enter a e entries → x = (a, e) ∨ x ∈ entries
  | [], h => Or.inl (List.mem_singleton.mp h)
  | (b, f) :: more, h => by
    unfold enter at h
    split at h
    · simpa using h
    · split at h
      · rcases List.mem_cons.mp h with h | h
        · exact Or.inl h
        · exact Or.inr (List.mem_cons_of_mem _ h)
      · rcases List.mem_cons.mp h with h | h
        · exact Or.inr (h ▸ List.mem_cons_self)
        · exact (mem_enter h).imp id (List.mem_cons_of_mem _)

theorem pairwise_enter {a : Address} {e : Entry} :
    ∀ {entries : List (Address × Entry)}, entries.Pairwise (fun x y => x.1 < y.1) →
      (enter a e entries).Pairwise (fun x y => x.1 < y.1)
  | [], _ => List.pairwise_singleton _ _
  | (b, f) :: more, h => by
    have ⟨hb, hmore⟩ := List.pairwise_cons.mp h
    unfold enter
    split
    · rename_i hab
      refine List.pairwise_cons.mpr ⟨fun y hy => ?_, h⟩
      rcases List.mem_cons.mp hy with rfl | hy
      · exact hab
      · exact List.lt_trans hab (hb y hy)
    · split
      · rename_i hab
        subst hab
        exact List.pairwise_cons.mpr ⟨hb, hmore⟩
      · rename_i hlt hne
        refine List.pairwise_cons.mpr ⟨fun y hy => ?_, pairwise_enter hmore⟩
        rcases mem_enter hy with rfl | hy
        · exact Decidable.byContradiction fun hba => hne (List.le_antisymm hba hlt)
        · exact hb y hy

/-! ## 2. Trees -/

/-- A file tree. -/
structure FileTree where
  entries : List (Address × Entry)
  ordered : entries.Pairwise (fun x y => x.1 < y.1)

namespace FileTree

/-- The tree with nothing below its root. -/
def empty : FileTree := ⟨[], .nil⟩

/-- What stands at an address. -/
def at? (t : FileTree) (a : Address) : Option Entry :=
  if a = [] then some .directory else t.entries.lookup a

/-- The tree with an entry at an address. -/
def put (t : FileTree) (a : Address) (e : Entry) : FileTree :=
  ⟨enter a e t.entries, pairwise_enter t.ordered⟩

/-- The tree with a directory at an address, unless something stands there. -/
def makeDirectory (t : FileTree) (a : Address) : FileTree :=
  if (t.at? a).isSome then t else t.put a .directory

/-- The addresses of the directories above an entry, the root first. -/
def above (a : Address) : List Address := (List.range a.length).map a.take

/-- Writes an entry, with the directories above it. -/
def write (t : FileTree) (a : Address) (e : Entry) : FileTree :=
  ((above a).foldl makeDirectory t).put a e

/-- Removes what stands at an address, with everything below it. -/
def remove (t : FileTree) (a : Address) : FileTree :=
  ⟨t.entries.filter fun x => !a.isPrefixOf x.1, t.ordered.filter _⟩

/-- The files below an address, by the names that lead to them from there. -/
def filesBelow (t : FileTree) (a : Address) : List Address :=
  t.entries.filterMap fun x => match x.2 with
    | .file _ => if a.isPrefixOf x.1 then some (x.1.drop a.length) else none
    | .directory => none

end FileTree

/-! ## 3. Following paths -/

/-- A file tree and the directory in it that relative paths start in. -/
structure Workspace where
  tree : FileTree
  here : Address

/-- Why a path leads nowhere. -/
inductive LookupFault where
  /-- There is no such entry. -/
  | absent
  /-- A step leaves something that is no directory. -/
  | notDirectory
deriving DecidableEq, Repr

namespace Workspace

/-- One step from an address. -/
def step (w : Workspace) (a : Address) (name : String) : Except LookupFault Address :=
  match w.tree.at? a with
  | some .directory =>
    if name = ".." then .ok a.dropLast
    else if (w.tree.at? (a ++ [name])).isSome then .ok (a ++ [name])
    else .error .absent
  | some (.file _) => .error .notDirectory
  | none => .error .absent

/-- The address that names lead to from another one. -/
def follow (w : Workspace) : Address → List String → Except LookupFault Address
  | a, [] => .ok a
  | a, name :: more => match w.step a name with
    | .ok b => w.follow b more
    | .error e => .error e

/-- Where a path starts. -/
def start (w : Workspace) (p : Path) : Address := if p.root = "" then w.here else []

/-- The address that a path leads to. -/
def locate (w : Workspace) (p : Path) : Except LookupFault Address := w.follow (w.start p) p.parts

/-- What a path leads to. -/
def find? (w : Workspace) (p : Path) : Option (Address × Entry) :=
  match w.locate p with
  | .ok a => (w.tree.at? a).map fun e => (a, e)
  | .error _ => none

/-- Whether a path leads to a directory. -/
def isDirectory (w : Workspace) (p : Path) : Bool :=
  match w.find? p with
  | some (_, .directory) => true
  | _ => false

/-- The address that a path is written to: a double dot takes the last name back. -/
def addressOf (w : Workspace) (p : Path) : Address :=
  p.parts.foldl (fun a name => if name = ".." then a.dropLast else a ++ [name]) (w.start p)

/-- Writes an entry. -/
def write (w : Workspace) (p : Path) (e : Entry) : Workspace :=
  { w with tree := w.tree.write (w.addressOf p) e }

/-- Removes what a path names, with everything below it. -/
def remove (w : Workspace) (p : Path) : Workspace :=
  { w with tree := w.tree.remove (w.addressOf p) }

/-- No files, and relative paths that start at the root. -/
def empty : Workspace := ⟨.empty, []⟩

end Workspace

end Marginalia
