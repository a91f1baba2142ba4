import Mathlib.Data.List.Nodup
import Mathlib.Data.List.Perm.Basic
import OffsideBench.Files.Walk

/-!
# The order of directory entries

A directory lists its entries in some order, on which nothing but the order of a walk depends: in a
tree with the same entries in another order each path leads to the same place, and a walk meets the
same files and faults, each as often.

Main statement: `FileTree.SameEntries.walk`.
-/

namespace OffsideBench

namespace FileTree

/-- Two trees hold the same entries, whatever the order in which their directories list them. -/
structure SameEntries (tree tree' : FileTree) : Prop where
  /-- The entries are the same up to order. -/
  entries : tree.entries.Perm tree'.entries
  /-- The current directory is the same. -/
  current : tree.current = tree'.current

/-- An entry stands at one place only. -/
theorem find?_place_eq_some {entries : List (Place × Entry)}
    (hd : (entries.map Prod.fst).Nodup) {place : Place} {x : Place × Entry} :
    entries.find? (·.1 = place) = some x ↔ x ∈ entries ∧ x.1 = place := by
  constructor
  · intro h
    have hx := List.find?_some h
    exact ⟨List.mem_of_find?_eq_some h, of_decide_eq_true hx⟩
  · rintro ⟨hm, hx⟩
    cases hf : entries.find? (·.1 = place) with
    | none => exact absurd (decide_eq_true hx) (List.find?_eq_none.1 hf x hm)
    | some y =>
      have hy : y.1 = place := by simpa using List.find?_some hf
      have hsame := List.inj_on_of_nodup_map hd (List.mem_of_find?_eq_some hf) hm (hy.trans hx.symm)
      rw [hsame]

namespace SameEntries

variable {tree tree' : FileTree}

theorem entry? (h : SameEntries tree tree') (place : Place) :
    tree.entry? place = tree'.entry? place := by
  have hfind : tree.entries.find? (·.1 = place) = tree'.entries.find? (·.1 = place) := by
    refine Option.ext fun x => ?_
    rw [find?_place_eq_some tree.distinct, find?_place_eq_some tree'.distinct, h.entries.mem_iff]
  rw [FileTree.entry?, FileTree.entry?, hfind]

theorem locate (h : SameEntries tree tree') (purpose : Purpose) (links : Nat) (place : Place)
    (names : List Name) :
    tree.locate purpose links place names = tree'.locate purpose links place names := by
  cases names with
  | nil => rw [FileTree.locate, FileTree.locate, h.entry?]
  | cons name names =>
    have hstay := h.locate purpose links place names
    have habove := h.locate purpose links place.dropLast names
    have hnext := h.locate purpose links (place ++ [name]) names
    rw [FileTree.locate, FileTree.locate]
    simp only [hstay, habove, hnext, h.entry?]
    cases links with
    | zero => rfl
    | succ links =>
      have hlink := fun start steps => h.locate purpose links start steps
      simp only [hlink]
termination_by (links, names.length)

theorem find (h : SameEntries tree tree') (purpose : Purpose) (path : Path) :
    tree.find purpose path = tree'.find purpose path := by
  rw [FileTree.find, FileTree.find, h.current, h.locate]

theorem children (h : SameEntries tree tree') (place : Place) :
    (tree.children place).Perm (tree'.children place) := h.entries.filterMap _

end SameEntries

/-- What a walk meets at one entry of the directory that it entered as `path` at `place`, from
within the directories `within`. -/
def visit (tree : FileTree) (within : List (Path × Place)) (path : Path) (place : Place)
    (x : Name × Entry) : List (Except WalkError FoundFile) :=
  let child := path.join x.1
  match x.2 with
  | .file content => [.ok ⟨child, x.1, opened child content⟩]
  | .directory =>
    if pathLimit < child.length then [.error (.refused child .nameTooLong)]
    else tree.walkBelow within child (place ++ [x.1])
  | .link _ =>
    match tree.find .look child with
    | .ok (.entry target .directory) =>
      match within.find? (·.2 = target) with
      | some ancestor => [.error (.loop child ancestor.1)]
      | none => tree.walkBelow within child target
    | .ok (.entry _ (.file content)) => [.ok ⟨child, x.1, .ok content⟩]
    | .ok _ => [.error (.refused child .notFound)]
    | .error e => [.error (.refused child e)]

/-- A file whose path is short enough is met with what it holds. -/
theorem visit_file {tree : FileTree} {within : List (Path × Place)} {path : Path} {place : Place}
    {name : Name} {content : ByteArray} (h : (path.join name).length ≤ pathLimit) :
    tree.visit within path place (name, .file content) =
      [.ok ⟨path.join name, name, .ok content⟩] := by
  show [Except.ok (⟨path.join name, name, opened (path.join name) content⟩ : FoundFile)] = _
  rw [opened, if_neg (Nat.not_lt.2 h)]

theorem walkBelow_eq (tree : FileTree) (inside : List (Path × Place)) (path : Path)
    (place : Place) :
    tree.walkBelow inside path place =
      (tree.children place).flatMap (tree.visit ((path, place) :: inside) path place) := by
  rw [walkBelow]
  conv => rhs; rw [← List.attach_map_subtype_val (tree.children place), List.flatMap_map]
  refine List.flatMap_congr ?_
  rintro ⟨⟨name, e⟩, hc⟩ -
  cases e with
  | file content => rfl
  | directory => rfl
  | link t =>
    simp only [visit]
    split
    · rename_i target hf
      rw [hf]
      split <;> rename_i hi <;> simp only [hi]
    · rename_i hf
      rw [hf]
    · rename_i found hdirectory hfile hf
      rw [hf]
      cases found with
      | missing => rfl
      | entry target e =>
        cases e with
        | file content => exact (hfile _ _ rfl).elim
        | directory => exact (hdirectory _ rfl).elim
        | link => rfl
    · rename_i hf
      rw [hf]

namespace SameEntries

variable {tree tree' : FileTree}

theorem walkBelow (h : SameEntries tree tree') (inside : List (Path × Place)) (path : Path)
    (place : Place) :
    (tree.walkBelow inside path place).Perm (tree'.walkBelow inside path place) := by
  rw [walkBelow_eq, walkBelow_eq]
  refine (h.children place).flatMap ?_
  rintro ⟨name, e⟩ hc
  cases e with
  | file content => exact .refl _
  | directory =>
    have := left_child hc (path.join name) ((path, place) :: inside)
    have hbelow := h.walkBelow ((path, place) :: inside) (path.join name) (place ++ [name])
    simp only [visit]
    split
    · exact .refl _
    · exact hbelow
  | link t =>
    simp only [visit, ← h.find]
    split
    · rename_i target hf
      split
      · exact .refl _
      · rename_i hi
        have := left_link hf hi place
        exact h.walkBelow _ _ _
    · exact .refl _
    · exact .refl _
    · exact .refl _
termination_by tree.left ((path, place) :: inside) place
decreasing_by all_goals assumption

/-- A walk meets the same files and faults in whatever order directories list their entries. -/
theorem walk (h : SameEntries tree tree') (root : Path) :
    (tree.walk root).Perm (tree'.walk root) := by
  rw [FileTree.walk, FileTree.walk, ← h.find]
  split
  · exact .refl _
  · exact h.walkBelow [] root _
  · exact .refl _
  · exact .refl _

end SameEntries

end FileTree

end OffsideBench
