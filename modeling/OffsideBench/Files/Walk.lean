import OffsideBench.Files.Tree

/-!
# Walking a file tree

All files at or below a path, links followed, in the order in which directories list their entries.
What cannot be followed is reported in its place, and the walk goes on behind it. A link that leads
to a directory the walk is inside of is such a fault, so the walk ends: descending into a directory
either uses up one that the walk was not inside of yet, or goes one name deeper (`walkBelow`).
-/

namespace OffsideBench

/-- Why a path could not be followed during a walk. -/
inductive WalkError where
  /-- The system refused. -/
  | refused (path : Path) (e : OsError)
  /-- The link at `path` leads back to the directory that the walk entered as `ancestor`. -/
  | loop (path ancestor : Path)
deriving DecidableEq, Repr, Inhabited

/-- A file met during a walk. -/
structure FoundFile where
  /-- The path by which it was met. -/
  path : Path
  /-- The last name of that path. -/
  name : Name
  /-- What the file holds, unless it cannot be opened by that path. -/
  content : Except OsError ByteArray
deriving Inhabited

namespace FileTree

/-- The places of all directories. -/
def directories (tree : FileTree) : List Place :=
  [] :: tree.entries.filterMap fun e => if e.2.isDirectory then some e.1 else none

/-- A bound on the number of names in a place. -/
def depth (tree : FileTree) : Nat := (tree.entries.map (·.1.length)).foldr max 0

theorem entry?_directory {tree : FileTree} {place : Place}
    (h : tree.entry? place = some .directory) : place ∈ tree.directories := by
  unfold entry? at h
  split at h
  · simp [directories, *]
  · obtain ⟨e, he, hd⟩ := Option.map_eq_some_iff.1 h
    have hp := List.find?_some he
    have hm := List.mem_of_find?_eq_some he
    simp only [decide_eq_true_eq] at hp
    exact List.mem_cons_of_mem _ (List.mem_filterMap.2 ⟨e, hm, by simp [hd, hp, Entry.isDirectory]⟩)

theorem locate_entry {tree : FileTree} {purpose : Purpose} {links : Nat} {start : Place}
    {names : List Name} {place : Place} {e : Entry}
    (h : tree.locate purpose links start names = .ok (.entry place e)) :
    tree.entry? place = some e := by
  fun_induction locate tree purpose links start names with
  | case1 links start e' he =>
    simp only [Except.ok.injEq, Target.entry.injEq] at h
    obtain ⟨rfl, rfl⟩ := h
    exact he
  | case3 => rename_i ih; exact ih h
  | case4 => rename_i ih; exact ih h
  | case9 => rename_i ih; exact ih h
  | case10 =>
    simp only [Except.ok.injEq, Target.entry.injEq] at h
    obtain ⟨rfl, rfl⟩ := h
    assumption
  | case12 =>
    simp only [Except.ok.injEq, Target.entry.injEq] at h
    obtain ⟨rfl, rfl⟩ := h
    assumption
  | case14 => rename_i ih; exact ih h
  | _ => cases h

theorem find_directory {tree : FileTree} {purpose : Purpose} {path : Path} {place : Place}
    (h : tree.find purpose path = .ok (.entry place .directory)) : place ∈ tree.directories := by
  unfold find at h
  split at h
  · simp at h
  split at h
  · simp at h
  split at h
  · simp at h
  exact entry?_directory (locate_entry h)

theorem children_place {tree : FileTree} {place : Place} {name : Name} {e : Entry}
    (h : (name, e) ∈ tree.children place) : (place ++ [name], e) ∈ tree.entries := by
  obtain ⟨⟨q, e'⟩, hm, hq⟩ := List.mem_filterMap.1 h
  simp only at hq
  split at hq
  · simp at hq
  · rename_i last hl
    split at hq
    · rename_i hd
      simp only [Option.some.injEq, Prod.mk.injEq] at hq
      obtain ⟨rfl, rfl⟩ := hq
      obtain ⟨parents, rfl⟩ := List.getLast?_eq_some_iff.1 hl
      rw [List.dropLast_concat] at hd
      exact hd ▸ hm
    · simp at hq

theorem length_le_depth {tree : FileTree} {place : Place} {e : Entry}
    (h : (place, e) ∈ tree.entries) : place.length ≤ tree.depth := by
  unfold depth
  generalize tree.entries = entries at h
  induction entries with
  | nil => simp at h
  | cons x xs ih =>
    rcases List.mem_cons.1 h with rfl | h
    · exact Nat.le_max_left ..
    · exact Nat.le_trans (ih h) (Nat.le_max_right ..)

/-- The number of directories that a walk inside of the given places is not inside of. -/
def unvisited (tree : FileTree) (inside : List (Path × Place)) : Nat :=
  tree.directories.countP fun d => !inside.any (·.2 = d)

theorem unvisited_cons_le (tree : FileTree) (a : Path × Place) (inside : List (Path × Place)) :
    tree.unvisited (a :: inside) ≤ tree.unvisited inside :=
  List.countP_mono_left fun d _ h => by
    simp only [List.any_cons, Bool.not_eq_true', Bool.or_eq_false_iff] at h
    simp [h.2]

private theorem countP_lt_countP {α : Type} {p q : α → Bool} {l : List α} {a : α}
    (hpq : ∀ x, p x = true → q x = true) (ha : a ∈ l) (hp : p a = false) (hq : q a = true) :
    l.countP p < l.countP q := by
  obtain ⟨s, t, rfl⟩ := List.append_of_mem ha
  have hs := List.countP_mono_left (l := s) fun x _ => hpq x
  have ht := List.countP_mono_left (l := t) fun x _ => hpq x
  rw [List.countP_append, List.countP_append, List.countP_cons_of_neg (by simp [hp]),
    List.countP_cons_of_pos hq]
  omega

theorem unvisited_cons_lt {tree : FileTree} {a : Path × Place} {inside : List (Path × Place)}
    (hd : a.2 ∈ tree.directories) (ha : ∀ b ∈ inside, b.2 ≠ a.2) :
    tree.unvisited (a :: inside) < tree.unvisited inside :=
  countP_lt_countP (fun d h => by
      simp only [List.any_cons, Bool.not_eq_true', Bool.or_eq_false_iff] at h
      simp [h.2])
    hd (by simp) (by simpa using fun x y hb => ha (x, y) hb)

/-- How far a walk inside of the given places, the last of them `place`, is from its end. -/
def left (tree : FileTree) (inside : List (Path × Place)) (place : Place) : Nat × Nat :=
  (tree.unvisited inside, tree.depth - place.length)

theorem left_child {tree : FileTree} {place : Place} {name : Name} {e : Entry}
    (h : (name, e) ∈ tree.children place) (path : Path) (inside : List (Path × Place)) :
    Prod.Lex (· < ·) (· < ·) (tree.left ((path, place ++ [name]) :: inside) (place ++ [name]))
      (tree.left inside place) := by
  have hlen := length_le_depth (children_place h)
  rw [List.length_append, List.length_singleton] at hlen
  rw [Prod.lex_def]
  simp only [left, List.length_append, List.length_singleton]
  have := tree.unvisited_cons_le (path, place ++ [name]) inside
  omega

theorem left_link {tree : FileTree} {path : Path} {target : Place}
    {inside : List (Path × Place)} (h : tree.find .look path = .ok (.entry target .directory))
    (hi : inside.find? (·.2 = target) = none) (place : Place) :
    Prod.Lex (· < ·) (· < ·) (tree.left ((path, target) :: inside) target)
      (tree.left inside place) :=
  Prod.Lex.left _ _ <| unvisited_cons_lt (find_directory h) fun b hb => by
    simpa using List.find?_eq_none.1 hi b hb

/-- What opening a file by a path gives. -/
def opened (path : Path) (content : ByteArray) : Except OsError ByteArray :=
  if pathLimit < path.length then .error .nameTooLong else .ok content

/-- The files below the directory at `place`, which was entered as `path` from within the
directories `inside`. -/
def walkBelow (tree : FileTree) (inside : List (Path × Place)) (path : Path) (place : Place) :
    List (Except WalkError FoundFile) :=
  let within := (path, place) :: inside
  (tree.children place).attach.flatMap fun ⟨(name, e), hc⟩ =>
    let child := path.join name
    match e, hc with
    | .file content, _ => [.ok ⟨child, name, opened child content⟩]
    | .directory, hc =>
      have := left_child hc child within
      if pathLimit < child.length then [.error (.refused child .nameTooLong)]
      else walkBelow tree within child (place ++ [name])
    | .link _, _ =>
      match hf : tree.find .look child with
      | .ok (.entry target .directory) =>
        match hi : within.find? (·.2 = target) with
        | some ancestor => [.error (.loop child ancestor.1)]
        | none =>
          have := left_link hf hi place
          walkBelow tree within child target
      | .ok (.entry _ (.file content)) => [.ok ⟨child, name, .ok content⟩]
      | .ok _ => [.error (.refused child .notFound)]
      | .error e => [.error (.refused child e)]
termination_by tree.left ((path, place) :: inside) place
decreasing_by all_goals assumption

/-- The files at or below a path. -/
def walk (tree : FileTree) (root : Path) : List (Except WalkError FoundFile) :=
  match tree.find .look root with
  | .ok (.entry _ (.file content)) => [.ok ⟨root, root.fileName, .ok content⟩]
  | .ok (.entry place .directory) => tree.walkBelow [] root place
  | .ok _ => [.error (.refused root .notFound)]
  | .error e => [.error (.refused root e)]

end FileTree

end OffsideBench
