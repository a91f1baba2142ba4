import OffsideBench.Token.Kind

/-!
# The sink

A benchmark run feeds the kind of every token it reads into a sink and reports the final state, so
that no part of the run is without effect and equal streams can be told from unequal ones. The state
is one 64-bit word; the code of a kind is folded into the increment of a splitmix generator.
-/

namespace OffsideBench

open Token (Kind)

/-- An accumulator of token kinds. -/
structure Sink where
  /-- The state, which is also the value that is reported. -/
  value : UInt64
deriving DecidableEq, Repr, Inhabited

namespace Sink

/-- The increment of the generator, which the code of a kind is folded into. -/
def gamma : UInt64 := 0x9e3779b97f4a7c15

/-- Exclusive or of a word with itself shifted right. -/
def foldRight (shift x : UInt64) : UInt64 := x ^^^ (x >>> shift)

/-- The output function of the generator: two rounds of folding and multiplying, and a last fold. -/
def scramble (x : UInt64) : UInt64 :=
  foldRight 31 (foldRight 27 (foldRight 30 x * 0xbf58476d1ce4e5b9) * 0x94d049bb133111eb)

/-- Takes in one token kind. -/
def consume (s : Sink) (k : Kind) : Sink :=
  ⟨scramble (s.value + (gamma ^^^ k.code.toUInt64))⟩

/-- Takes in a sequence of token kinds. -/
def consumeAll (s : Sink) (ks : List Kind) : Sink := ks.foldl consume s

/-- Takes in a sequence of token kinds `n` times over. -/
def consumeTimes (ks : List Kind) : Nat → Sink → Sink
  | 0, s => s
  | n + 1, s => consumeTimes ks n (s.consumeAll ks)

@[simp]
theorem consumeAll_nil (s : Sink) : s.consumeAll [] = s := rfl

@[simp]
theorem consumeAll_cons (s : Sink) (k : Kind) (ks : List Kind) :
    s.consumeAll (k :: ks) = (s.consume k).consumeAll ks := rfl

theorem consumeAll_append (s : Sink) (as bs : List Kind) :
    s.consumeAll (as ++ bs) = (s.consumeAll as).consumeAll bs := List.foldl_append

/-- Taking in a sequence `n` times over is taking in its `n`-fold repetition. -/
theorem consumeTimes_eq (ks : List Kind) (n : Nat) (s : Sink) :
    consumeTimes ks n s = s.consumeAll (List.replicate n ks).flatten := by
  induction n generalizing s with
  | zero => rfl
  | succ n ih => rw [consumeTimes, ih, List.replicate_succ, List.flatten_cons, consumeAll_append]

end Sink

end OffsideBench
