import OffsideBench.Bench
import OffsideBench.Report.Basic
import OffsideBench.Sink

/-!
# Batches

A batch reads one text a number of times, each time from the start and to the end, and feeds the
kinds of all tokens into one sink. Two lines of progress follow, after the clock has stopped. A
batch that cannot be run writes nothing.
-/

namespace OffsideBench

open Token (Kind)

/-! ## Taking in tokens -/

/-- What is kept from one token to the next. -/
structure Tally where
  /-- The sink that all tokens go into. -/
  sink : Sink
  /-- The number of tokens so far. -/
  tokens : UInt64
deriving DecidableEq, Repr, Inhabited

namespace Tally

/-- The tally in front of the first token. -/
def start (seed : UInt64) : Tally := ⟨⟨seed⟩, 0⟩

/-- Takes in one token. -/
def add (t : Tally) (k : Kind) : Tally := ⟨t.sink.consume k, t.tokens + 1⟩

/-- Takes in the tokens up to the end of the text, unless there is a fault in front of it. -/
def read (t : Tally) (r : Reader) : Except LexError Tally :=
  match h : r.next with
  | (.error e, _) => .error e
  | (.ok token, r') =>
    if ht : token.kind = .eof then
      .ok t
    else
      have := Reader.next_weight_lt h ht
      read (t.add token.kind) r'
termination_by r.weight

/-- Takes in the tokens of a text `n` times over, each time with the same reader in front of it. -/
def readTimes (r : Reader) : Nat → Tally → Except LexError Tally
  | 0, t => .ok t
  | n + 1, t =>
    match t.read r with
    | .error e => .error e
    | .ok t => readTimes r n t

end Tally

/-! ## Batches -/

/-- Reading one text a number of times. -/
structure Batch where
  /-- How the text is read. -/
  variant : Variant
  /-- The name of the workload. -/
  workload : String
  /-- The text, which is ready for the variant. -/
  text : String
  /-- How often the text is read. -/
  repetitions : UInt64
  /-- The name of the batch. -/
  run : String
deriving DecidableEq, Repr, Inhabited

namespace Batch

/-- The stream that is read each time. -/
def drain (b : Batch) : Drain := b.variant.drain b.text

/-- The tally after all repetitions, with a sink that starts from the seed. -/
def tally (b : Batch) (seed : UInt64) : Except LexError Tally :=
  Tally.readTimes (b.variant.reader b.text) b.repetitions.toNat (.start seed)

/-- The result of a batch with the given tally that took the given time. -/
def measurement (b : Batch) (t : Tally) (timing : Timing) : Measurement :=
  let totalTime := Timing.milliseconds timing.elapsed
  { variant := b.variant
    workload := b.workload
    run := b.run
    chars := b.text.length.toUInt64
    tokensPerRun := t.tokens / b.repetitions
    totalTokens := t.tokens
    repetitions := b.repetitions
    totalTime
    timePerRun := totalTime / .ofNat b.repetitions.toNat
    tokenTime := Timing.milliseconds timing.tokens
    randomResult := t.sink.value }

/-- The line that names the final state of the sink, in pieces. -/
def sinkLine (m : Measurement) : List String :=
  ["[", m.variant.label, "] ", m.run, " resulted in random int: ", toString m.randomResult]

/-- The line that names the times, in pieces. -/
def timeLine (m : Measurement) : List String :=
  ["[", m.variant.label, "] time: ", m.timePerRun.fixed 6, " ms each (", m.totalTime.fixed 3,
    " ms total, ", toString m.repetitions, " runs)"]

/-- Runs a batch with a sink that starts from the seed. Without repetitions there is nothing to
run, also when the text cannot be lexed. -/
def perform (b : Batch) (seed : UInt64) : BenchM Measurement := do
  if b.repetitions = 0 then
    throw (.misconfigured (.noRepetitions b.variant b.run b.workload))
  let tally ← BenchM.ofExcept ((b.tally seed).mapError .lex)
  let m := b.measurement tally (← BenchM.readClock)
  BenchM.writeLine (sinkLine m)
  BenchM.writeLine (timeLine m)
  return m

/-- Runs a batch `count` times as warmup, under the names of the numbers from `i` on. -/
def warmUp (b : Batch) (seed : UInt64) (i : Nat) : Nat → BenchM Unit
  | 0 => return
  | count + 1 => do
    let _ ← { b with run := s!"warmup {i}" }.perform seed
    warmUp b seed (i + 1) count

end Batch

end OffsideBench
