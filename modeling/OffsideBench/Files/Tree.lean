import OffsideBench.Files.OsError
import OffsideBench.Files.Path

/-!
# File trees

A tree of files, directories and symbolic links, as a list of places and what stands there. A place
is the row of names that leads to an entry from the root of the tree, without links and dots; the
root itself is a directory and is not listed. The entries of a directory come in the order of the
list.

Paths are followed one name at a time, from the root of the tree if they start with a slash and from
the current directory otherwise. A symbolic link on the way is replaced by its target, at most forty
times.

A single change is made as a whole or refused. An action of several changes (`FileM`) that is refused
on the way leaves those that it has made.
-/

namespace OffsideBench

/-- A row of names from the root of a tree. -/
abbrev Place := List Name

/-- What stands at a place. -/
inductive Entry where
  | file (content : ByteArray)
  | directory
  | link (target : Path)
deriving Inhabited

namespace Entry

/-- Whether an entry is a directory. -/
def isDirectory : Entry → Bool
  | directory => true
  | file _ | link _ => false

/-- Whether two entries are the same. -/
def same : Entry → Entry → Bool
  | file a, file b => a.toList == b.toList
  | directory, directory => true
  | link a, link b => a == b
  | _, _ => false

end Entry

/-- A tree of files. -/
structure FileTree where
  /-- All places but the root, and what stands there. -/
  entries : List (Place × Entry)
  /-- No place is listed twice. -/
  distinct : (entries.map Prod.fst).Nodup
  /-- The current directory. -/
  current : Place

/-- What is to be done with the last name of a path. -/
inductive Purpose where
  /-- The entry is looked at. A link is followed. -/
  | look
  /-- A file is written. A link is followed; a slash behind the name is refused before anything is
  looked up under the name. -/
  | write
  /-- An entry is made. A link is not followed, and a slash behind the name makes no difference. -/
  | make
deriving DecidableEq, Repr, Inhabited

/-- Whether a name is the last one, given the names behind it. -/
def Purpose.isLast (purpose : Purpose) (names : List Name) : Bool :=
  names == [] || (purpose == make && names == [[]])

/-- What a path leads to. -/
inductive Target where
  /-- There is an entry. -/
  | entry (place : Place) (e : Entry)
  /-- There is none, but there is the directory that it would lie in. -/
  | missing (place : Place)
deriving Inhabited

namespace FileTree

/-- The tree without files. -/
def empty : FileTree := ⟨[], List.Pairwise.nil, []⟩

instance : Inhabited FileTree := ⟨empty⟩

/-- What stands at a place. -/
def entry? (tree : FileTree) (place : Place) : Option Entry :=
  if place = [] then some .directory else (tree.entries.find? (·.1 = place)).map (·.2)

/-- The entries of the directory at a place. -/
def children (tree : FileTree) (place : Place) : List (Name × Entry) :=
  tree.entries.filterMap fun e =>
    match e.1.getLast? with
    | none => none
    | some name => if e.1.dropLast = place then some (name, e.2) else none

/-- The longest name. -/
def nameLimit : Nat := 255

/-- The longest path. -/
def pathLimit : Nat := 4095

/-- How many symbolic links may be followed on the way of one path. -/
def linkLimit : Nat := 40

/-- Follows names from a place, and at most `links` symbolic links. -/
def locate (tree : FileTree) (purpose : Purpose) (links : Nat) (place : Place) :
    List Name → Except OsError Target
  | [] =>
    match tree.entry? place with
    | some e => .ok (.entry place e)
    | none => .error .notFound
  | name :: names =>
    if name = [] ∨ name = Path.here then locate tree purpose links place names
    else if name = Path.above then locate tree purpose links place.dropLast names
    else if purpose = .write ∧ names = [[]] then .error .isDirectory
    else if nameLimit < name.length then .error .nameTooLong
    else
      let next := place ++ [name]
      match tree.entry? next with
      | none => if purpose.isLast names then .ok (.missing next) else .error .notFound
      | some .directory => locate tree purpose links next names
      | some (.file content) =>
        if purpose.isLast names then .ok (.entry next (.file content)) else .error .notDirectory
      | some (.link target) =>
        if purpose = .make ∧ purpose.isLast names then .ok (.entry next (.link target))
        else
          match links with
          | 0 => .error .tooManyLinks
          | links + 1 =>
            let start := if target.isAbsolute then [] else place
            locate tree purpose links start (target.steps ++ names)
termination_by names => (links, names.length)

/-- Follows a path. -/
def find (tree : FileTree) (purpose : Purpose) (path : Path) : Except OsError Target :=
  if 0 ∈ path then .error .nullByte
  else if path = [] then .error .notFound
  else if pathLimit < path.length then .error .nameTooLong
  else tree.locate purpose linkLimit (if path.isAbsolute then [] else tree.current) path.steps

/-- Whether a path leads to a directory. -/
def isDirectory (tree : FileTree) (path : Path) : Bool :=
  match tree.find .look path with
  | .ok (.entry _ .directory) => true
  | _ => false

/-- The content of the file that a path leads to. -/
def content? (tree : FileTree) (path : Path) : Option ByteArray :=
  match tree.find .look path with
  | .ok (.entry _ (.file content)) => some content
  | _ => none

/-! ## Changing a tree -/

/-- Puts an entry at a place, in place of what stands there or behind all others. -/
def put (tree : FileTree) (place : Place) (e : Entry) : FileTree :=
  if h : place ∈ tree.entries.map Prod.fst then
    { tree with
      entries := tree.entries.map fun old => if old.1 = place then (place, e) else old
      distinct := by
        have same : (tree.entries.map fun old => if old.1 = place then (place, e) else old).map
            Prod.fst = tree.entries.map Prod.fst := by
          rw [List.map_map]
          refine List.map_congr_left fun old _ => ?_
          by_cases ho : old.1 = place <;> simp [ho]
        rw [same]
        exact tree.distinct }
  else
    { tree with
      entries := tree.entries ++ [(place, e)]
      distinct := by
        rw [List.map_append, List.nodup_append]
        refine ⟨tree.distinct, by simp, ?_⟩
        rintro a ha b hb rfl
        rw [List.map_singleton, List.mem_singleton] at hb
        exact h ((show a = place from hb) ▸ ha) }

/-- Makes a directory. -/
def makeDirectory (tree : FileTree) (path : Path) : Except OsError FileTree :=
  match tree.find .make path with
  | .error e => .error e
  | .ok (.entry _ _) => .error .alreadyExists
  | .ok (.missing place) => .ok (tree.put place .directory)

/-- Makes a directory unless the path leads to one. -/
def ensureDirectory (tree : FileTree) (path : Path) : Except OsError FileTree :=
  match tree.makeDirectory path with
  | .ok tree => .ok tree
  | .error e => if tree.isDirectory path then .ok tree else .error e

/-- Writes a file, in place of what it held before. -/
def write (tree : FileTree) (path : Path) (content : ByteArray) : Except OsError FileTree :=
  match tree.find .write path with
  | .error e => .error e
  | .ok (.entry _ .directory) => .error .isDirectory
  | .ok (.entry place _) | .ok (.missing place) => .ok (tree.put place (.file content))

end FileTree

/-! ## Actions of several steps -/

/-- An action on a tree. What it has changed stays changed when it is refused. -/
abbrev FileM := ExceptT OsError (StateM FileTree)

namespace FileM

/-- Makes a change as a whole, or nothing of it. -/
def change (f : FileTree → Except OsError FileTree) : FileM Unit := do
  match f (← get) with
  | .error e => throw e
  | .ok tree => set tree

/-- Makes a directory and those that it lies in, unless they exist. The parents are made only when
the directory cannot be made for want of them. -/
def ensureDirectories (path : Path) : Nat → FileM Unit
  | 0 => return
  | fuel + 1 => do
    let tree ← get
    if path = [] then
      return
    else
      match tree.makeDirectory path with
      | .ok tree => set tree
      | .error .notFound =>
        match path.parent? with
        | none => throw .notFound
        | some parent =>
          ensureDirectories parent fuel
          change fun tree => tree.ensureDirectory path
      | .error e => if tree.isDirectory path then return else throw e

/-- Makes a directory and all those that it lies in, as far as they do not exist. -/
def makeDirectories (path : Path) : FileM Unit := ensureDirectories path (path.length + 1)

/-- The tree that an action leaves, unless it is refused. -/
def outcome (action : FileM Unit) (tree : FileTree) : Except OsError FileTree :=
  match action.run tree with
  | (.ok (), tree) => .ok tree
  | (.error e, _) => .error e

end FileM

namespace FileTree

/-- A tree with a directory and all those that it lies in. -/
def makeDirectories (tree : FileTree) (path : Path) : Except OsError FileTree :=
  (FileM.makeDirectories path).outcome tree

/-- Makes the directory that a path leads to the current one. -/
def enter (tree : FileTree) (path : Path) : Except OsError FileTree :=
  match tree.find .look path with
  | .error e => .error e
  | .ok (.entry place .directory) => .ok { tree with current := place }
  | .ok (.entry _ _) => .error .notDirectory
  | .ok (.missing _) => .error .notFound

/-- What stands in a tree in places where nothing, or something else, stood in the tree `before`. -/
def changes (tree before : FileTree) : List (Place × Entry) :=
  tree.entries.filter fun e => !(before.entry? e.1).any e.2.same

/-- Puts an entry where a path leads, and makes the directories on the way. -/
def install (tree : FileTree) (path : Path) (e : Entry) : Except OsError FileTree := do
  let tree ← match path.parent? with
    | some parent => tree.makeDirectories parent
    | none => .ok tree
  match e with
  | .directory => tree.makeDirectories path
  | .file content => tree.write path content
  | .link _ =>
    match ← tree.find .make path with
    | .entry _ _ => .error .alreadyExists
    | .missing place => .ok (tree.put place e)

end FileTree

end OffsideBench
