import OffsideBench.Session

/-!
# Actions that fail

An action on a bench or on a machine is a state transformer that may end in an error. What a
sequence of actions ended in is what its first part ended in, or what the second part made of the
value of the first.
-/

namespace OffsideBench

section Sequences

variable {σ ε α β : Type} {x : ExceptT ε (StateM σ) α} {f : α → ExceptT ε (StateM σ) β}
  {s s₁ s' : σ} {e : ε}

theorem bind_of_ok {a : α} (h : x s = (.ok a, s₁)) : (x >>= f) s = f a s₁ := by
  have hb : (x >>= f) s = ExceptT.bindCont f (x s).1 (x s).2 := rfl
  rw [hb, h]
  rfl

theorem bind_of_error (h : x s = (.error e, s₁)) : (x >>= f) s = (.error e, s₁) := by
  have hb : (x >>= f) s = ExceptT.bindCont f (x s).1 (x s).2 := rfl
  rw [hb, h]
  rfl

/-- A sequence of two actions fails in the first or, behind it, in the second. -/
theorem bind_eq_error (h : (x >>= f) s = (.error e, s')) :
    x s = (.error e, s') ∨ ∃ a s₁, x s = (.ok a, s₁) ∧ f a s₁ = (.error e, s') := by
  cases hx : x s with
  | mk result s₁ =>
    cases result with
    | error e' =>
      rw [bind_of_error hx] at h
      cases h
      exact .inl rfl
    | ok a =>
      rw [bind_of_ok hx] at h
      exact .inr ⟨a, s₁, rfl, h⟩

end Sequences

/-- A check of a list passes if and only if all its members pass. -/
theorem forM_eq_ok_iff {ε α : Type} {f : α → Except ε Unit} {xs : List α} :
    xs.forM f = .ok () ↔ ∀ x ∈ xs, f x = .ok () := by
  induction xs with
  | nil => simp [List.forM, pure, Except.pure]
  | cons x xs ih =>
    have hcons : (x :: xs).forM f = (f x).bind fun _ => xs.forM f := rfl
    rw [hcons, List.forall_mem_cons, ← ih]
    cases f x with
    | error e => simp [Except.bind]
    | ok => simp [Except.bind]

/-- A check of a list fails as its first member that does not pass. -/
theorem forM_of_first_error {ε α : Type} {f : α → Except ε Unit} {before after : List α} {x : α}
    {e : ε} (hbefore : ∀ y ∈ before, f y = .ok ()) (hx : f x = .error e) :
    (before ++ x :: after).forM f = .error e := by
  induction before with
  | nil =>
    have hcons : (x :: after).forM f = (f x).bind fun _ => after.forM f := rfl
    rw [List.nil_append, hcons, hx]
    rfl
  | cons y before ih =>
    rw [List.forall_mem_cons] at hbefore
    have hcons : (y :: (before ++ x :: after)).forM f =
        (f y).bind fun _ => (before ++ x :: after).forM f := rfl
    rw [List.cons_append, hcons, hbefore.1, ← ih hbefore.2]
    rfl

namespace BenchM

theorem write_eq (piece : String) (b : Bench) :
    write piece b = if piece.isEmpty then (.ok (), b)
      else if b.writer.isFull then (.error (.output Writer.fullReason), b)
      else (.ok (), { b with writer := { b.writer with text := b.writer.text ++ piece } }) := by
  unfold write
  show (if _ then _ else if _ then _ else _ : BenchM Unit) b = _
  split
  · rfl
  · split <;> rfl

theorem write_eq_error {piece : String} {b b' : Bench} {e : BenchError}
    (h : write piece b = (.error e, b')) : e = .output Writer.fullReason := by
  rw [write_eq] at h
  split at h
  · cases h
  · split at h
    · cases h
      rfl
    · cases h

/-- Writing a line fails only with a full writer. -/
theorem writeLine_eq_error {pieces : List String} {b b' : Bench} {e : BenchError}
    (h : writeLine pieces b = (.error e, b')) : e = .output Writer.fullReason := by
  induction pieces generalizing b with
  | nil => exact write_eq_error h
  | cons piece pieces ih =>
    rcases bind_eq_error h with h | ⟨_, _, -, h⟩
    · exact write_eq_error h
    · exact ih h

/-- An action for each member of a list fails in the action for one of them. -/
theorem forM_eq_error {α : Type} {f : α → BenchM Unit} {xs : List α} {b b' : Bench}
    {e : BenchError} (h : xs.forM f b = (.error e, b')) :
    ∃ x ∈ xs, ∃ b₁ b₂, f x b₁ = (.error e, b₂) := by
  induction xs generalizing b with
  | nil => cases h
  | cons x xs ih =>
    rcases bind_eq_error h with h | ⟨_, _, -, h⟩
    · exact ⟨x, List.mem_cons_self, b, b', h⟩
    · obtain ⟨y, hy, b₁, b₂, hf⟩ := ih h
      exact ⟨y, List.mem_cons_of_mem _ hy, b₁, b₂, hf⟩

end BenchM

namespace Session

/-- A session that acts on its bench fails as that action does. -/
theorem onBench_eq_error {α : Type} {action : BenchM α} {m m' : Machine} {e : BenchError}
    (h : onBench action m = (.error e, m')) : ∃ b', action m.bench = (.error e, b') := by
  have ho : onBench action m = ((action m.bench).1, { m with bench := (action m.bench).2 }) := rfl
  rw [ho] at h
  cases ha : action m.bench with
  | mk result b' =>
    rw [ha] at h
    cases h
    exact ⟨b', rfl⟩

end Session

end OffsideBench
