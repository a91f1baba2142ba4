import OffsideBench.Proofs.Actions
import OffsideBench.Proofs.Files.Order

/-!
# What a change to files leaves alone

Making directories only adds directories, also when it is refused on the way (`FileTree.Grows`).
Writing a file changes what stands at one place, the one that the path leads to
(`FileTree.write_eq_ok`).
-/

namespace OffsideBench

/-- The place that a path leads to. -/
def Target.place : Target → Place
  | .entry place _ | .missing place => place

namespace FileTree

variable {tree tree' tree'' : FileTree}

/-! ## Putting an entry at a place -/

theorem entry?_eq_some_iff {place : Place} (hp : place ≠ []) {e : Entry} :
    tree.entry? place = some e ↔ (place, e) ∈ tree.entries := by
  unfold entry?
  rw [if_neg hp, Option.map_eq_some_iff]
  constructor
  · rintro ⟨x, hx, rfl⟩
    obtain ⟨hm, rfl⟩ := (find?_place_eq_some tree.distinct).1 hx
    exact hm
  · intro h
    exact ⟨(place, e), (find?_place_eq_some tree.distinct).2 ⟨h, rfl⟩, rfl⟩

theorem mem_entries_put {place q : Place} {e e' : Entry} :
    (q, e') ∈ (tree.put place e).entries ↔
      q = place ∧ e' = e ∨ q ≠ place ∧ (q, e') ∈ tree.entries := by
  unfold put
  by_cases h : place ∈ tree.entries.map Prod.fst
  · rw [dif_pos h]
    show (q, e') ∈ tree.entries.map _ ↔ _
    rw [List.mem_map]
    constructor
    · rintro ⟨old, hm, ho⟩
      by_cases hold : old.1 = place
      · rw [if_pos hold] at ho
        cases ho
        exact .inl ⟨rfl, rfl⟩
      · rw [if_neg hold] at ho
        subst ho
        exact .inr ⟨hold, hm⟩
    · rintro (⟨rfl, rfl⟩ | ⟨hne, hm⟩)
      · obtain ⟨old, hm, ho⟩ := List.mem_map.1 h
        exact ⟨old, hm, if_pos ho⟩
      · exact ⟨(q, e'), hm, if_neg hne⟩
  · rw [dif_neg h]
    show (q, e') ∈ tree.entries ++ [(place, e)] ↔ _
    rw [List.mem_append, List.mem_singleton, Prod.mk.injEq]
    constructor
    · rintro (hm | ⟨rfl, rfl⟩)
      · refine .inr ⟨?_, hm⟩
        rintro rfl
        exact h (List.mem_map_of_mem hm)
      · exact .inl ⟨rfl, rfl⟩
    · rintro (⟨rfl, rfl⟩ | ⟨-, hm⟩)
      · exact .inr ⟨rfl, rfl⟩
      · exact .inl hm

theorem entry?_put {place : Place} (hp : place ≠ []) (e : Entry) (q : Place) :
    entry? (tree.put place e) q = if q = place then some e else tree.entry? q := by
  by_cases hq : q = []
  · subst hq
    rw [if_neg (Ne.symm hp)]
    rfl
  · refine Option.ext fun e' => ?_
    rw [entry?_eq_some_iff hq, mem_entries_put]
    by_cases hqp : q = place
    · rw [if_pos hqp]
      simp [hqp, eq_comm]
    · rw [if_neg hqp, entry?_eq_some_iff hq]
      simp [hqp]

theorem entry?_put_of_ne {place q : Place} (hp : place ≠ []) {e : Entry} (hq : q ≠ place) :
    entry? (tree.put place e) q = tree.entry? q := by rw [entry?_put hp, if_neg hq]

end FileTree

/-! ## Actions of several steps -/

namespace FileM

variable {f : FileTree → Except OsError FileTree} {tree tree' : FileTree} {e : OsError}

theorem change_of_ok (h : f tree = .ok tree') : change f tree = (.ok (), tree') := by
  have hget : (get : FileM FileTree) tree = (.ok tree, tree) := rfl
  rw [change, bind_of_ok hget, h]
  rfl

theorem change_of_error (h : f tree = .error e) : change f tree = (.error e, tree) := by
  have hget : (get : FileM FileTree) tree = (.ok tree, tree) := rfl
  rw [change, bind_of_ok hget, h]
  rfl

theorem outcome_of_ok {x : FileM Unit} (h : x tree = (.ok (), tree')) :
    x.outcome tree = .ok tree' := by
  have hrun : x.run tree = (.ok (), tree') := h
  rw [outcome, hrun]

theorem outcome_of_error {x : FileM Unit} (h : x tree = (.error e, tree')) :
    x.outcome tree = .error e := by
  have hrun : x.run tree = (.error e, tree') := h
  rw [outcome, hrun]

/-- A change that follows an action is made to the tree that the action leaves. -/
theorem outcome_andThen (x : FileM Unit) (f : FileTree → Except OsError FileTree)
    (tree : FileTree) : outcome (x >>= fun _ => change f) tree = (outcome x tree).bind f := by
  cases hx : x tree with
  | mk result tree₁ =>
    cases result with
    | error e =>
      rw [outcome_of_error hx, outcome_of_error (bind_of_error hx)]
      rfl
    | ok =>
      rw [outcome_of_ok hx, Except.bind]
      cases hf : f tree₁ with
      | error e => exact outcome_of_error ((bind_of_ok hx).trans (change_of_error hf))
      | ok tree₂ => exact outcome_of_ok ((bind_of_ok hx).trans (change_of_ok hf))

end FileM

namespace FileTree

variable {tree tree' tree'' : FileTree}

/-! ## Making directories -/

/-- What stood in `tree` stands in `tree'`, and what is new is a directory. -/
structure Grows (tree tree' : FileTree) : Prop where
  /-- Nothing is lost. -/
  kept : ∀ q e, tree.entry? q = some e → tree'.entry? q = some e
  /-- Nothing but directories is added. -/
  added : ∀ q e, tree'.entry? q = some e → tree.entry? q = some e ∨ e = .directory

namespace Grows

theorem refl (tree : FileTree) : Grows tree tree := ⟨fun _ _ h => h, fun _ _ h => .inl h⟩

theorem trans (h : Grows tree tree') (h' : Grows tree' tree'') : Grows tree tree'' := by
  refine ⟨?_, ?_⟩
  · intro q e hq
    exact h'.kept q e (h.kept q e hq)
  · intro q e hq
    rcases h'.added q e hq with hq | he
    · exact h.added q e hq
    · exact .inr he

theorem andThen {x : FileM Unit} {f : Unit → FileM Unit} (hx : Grows tree (x tree).2)
    (hf : Grows (x tree).2 (f () (x tree).2).2) : Grows tree ((x >>= f) tree).2 := by
  cases h : x tree with
  | mk result tree₁ =>
    rw [h] at hx hf
    cases result with
    | error e =>
      rw [bind_of_error h]
      exact hx
    | ok =>
      rw [bind_of_ok h]
      exact hx.trans hf

end Grows

/-! ## Writing a file -/

/-- Nothing is lost and no file is added, at places other than some. -/
structure SameElsewhere (tree tree' : FileTree) (changed : Place → Prop) : Prop where
  /-- Nothing is lost. -/
  kept : ∀ q e, ¬ changed q → tree.entry? q = some e → tree'.entry? q = some e
  /-- No file is added. -/
  added : ∀ q content, ¬ changed q → tree'.entry? q = some (.file content) →
    tree.entry? q = some (.file content)

theorem SameElsewhere.refl (tree : FileTree) (changed : Place → Prop) :
    SameElsewhere tree tree changed := ⟨fun _ _ _ h => h, fun _ _ _ h => h⟩

end FileTree

end OffsideBench
