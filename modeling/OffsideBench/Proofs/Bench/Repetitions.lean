import OffsideBench.Batch

/-!
# What the repetitions of a batch come to

A batch reads its text token by token and as often as it is told to. The loop over the tokens is a
fold over what one drain gives, and the loop over the repetitions a fold over that row repeated, so
the tally of a batch is known from a single drain of its text.

Main statements: `Batch.tally_of_finish` and `Batch.tally_of_fault`.
-/

namespace OffsideBench

open Token (Kind)

namespace Tally

/-- Taking in the tokens up to the end is folding over what is drained. -/
theorem read_eq (t : Tally) (r : Reader) :
    t.read r = r.drain.finish.map fun _ =>
      ⟨t.sink.consumeAll r.drain.kinds, t.tokens + r.drain.tokens.length.toUInt64⟩ := by
  fun_induction Tally.read t r with
  | case1 t r e r' h => rw [Reader.drain_eq, h]; rfl
  | case2 t r token r' h ht =>
    rw [Reader.drain_eq, h]
    simp only [if_pos ht, Except.map, Drain.kinds, List.map_nil, Sink.consumeAll_nil,
      List.length_nil]
    exact congrArg Except.ok (congrArg (Tally.mk t.sink) (UInt64.add_zero _).symm)
  | case3 t r token r' h ht _ ih =>
    have hlength : t.tokens + 1 + r'.drain.tokens.length.toUInt64 =
        t.tokens + (r'.drain.tokens.length + 1).toUInt64 := by
      rw [UInt64.add_assoc, UInt64.add_comm 1]
      exact congrArg (t.tokens + ·) (UInt64.ofNat_add _ 1).symm
    rw [ih, Reader.drain_eq r, h]
    simp only [if_neg ht, Drain.kinds, List.map_cons, Sink.consumeAll_cons, List.length_cons,
      ← hlength]
    rfl

variable {r : Reader}

/-- Without a fault each repetition takes in the same tokens. -/
theorem readTimes_of_finish {e : Token} (h : r.drain.finish = .ok e) (n : Nat) (t : Tally) :
    readTimes r n t = .ok ⟨Sink.consumeTimes r.drain.kinds n t.sink,
      t.tokens + (n * r.drain.tokens.length).toUInt64⟩ := by
  induction n generalizing t with
  | zero =>
    rw [readTimes, Nat.zero_mul]
    exact congrArg Except.ok (congrArg (Tally.mk t.sink) (UInt64.add_zero _).symm)
  | succ n ih =>
    have hcount : t.tokens + r.drain.tokens.length.toUInt64 +
        (n * r.drain.tokens.length).toUInt64 =
          t.tokens + ((n + 1) * r.drain.tokens.length).toUInt64 := by
      rw [Nat.succ_mul, Nat.add_comm, UInt64.add_assoc]
      exact congrArg (t.tokens + ·) (UInt64.ofNat_add _ _).symm
    rw [readTimes, read_eq, h]
    simp only [Except.map, ih, hcount, Sink.consumeTimes]

/-- A fault ends the first repetition already. -/
theorem readTimes_of_fault {e : LexError} (h : r.drain.finish = .error e) {n : Nat} (hn : n ≠ 0)
    (t : Tally) : readTimes r n t = .error e := by
  obtain ⟨n, rfl⟩ := Nat.exists_eq_succ_of_ne_zero hn
  rw [readTimes, read_eq, h]
  rfl

end Tally

namespace Batch

variable {b : Batch}

/-- The tally of a text that is read to its end each time. -/
def wholeTally (b : Batch) (seed : UInt64) : Tally :=
  ⟨(Sink.mk seed).consumeAll (List.replicate b.repetitions.toNat b.drain.kinds).flatten,
    (b.repetitions.toNat * b.drain.tokens.length).toUInt64⟩

theorem tally_of_finish {e : Token} (h : b.drain.finish = .ok e) (seed : UInt64) :
    b.tally seed = .ok (b.wholeTally seed) := by
  rw [tally, Tally.readTimes_of_finish h, Sink.consumeTimes_eq]
  exact congrArg Except.ok (congrArg (Tally.mk _) (UInt64.zero_add _))

/-- A text with a fault has no tally. -/
theorem tally_of_fault {e : LexError} (h : b.drain.finish = .error e) (hr : b.repetitions ≠ 0)
    (seed : UInt64) : b.tally seed = .error e := by
  refine Tally.readTimes_of_fault h (fun hzero => hr ?_) _
  exact UInt64.toNat_inj.1 hzero

end Batch

end OffsideBench
