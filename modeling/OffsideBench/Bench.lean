import OffsideBench.Error

/-!
# The bench

What a running benchmark touches: the writer that progress goes to and the clock. A writer may take
only so many lines; the clock is the row of times that the batches to come will take.

An action on the bench gives a value or an error, and in both cases leaves what was written before.
-/

namespace OffsideBench

/-- Where progress is written. -/
structure Writer where
  /-- What was written so far. -/
  text : String := ""
  /-- The number of line feeds after which nothing more is taken. -/
  limit : Option Nat := none
deriving DecidableEq, Repr, Inhabited

namespace Writer

/-- The number of line feeds that were written. -/
def lineFeeds (w : Writer) : Nat := w.text.toList.countP (· = '\n')

/-- Whether the writer takes nothing more. -/
def isFull (w : Writer) : Bool :=
  match w.limit with
  | none => false
  | some limit => limit ≤ w.lineFeeds

/-- Why a full writer takes nothing more. -/
def fullReason : String := "writer is full"

end Writer

/-- The time that a batch took, in nanoseconds. -/
structure Timing where
  /-- From the first repetition to the last. -/
  elapsed : Nat := 0
  /-- In reading tokens. -/
  tokens : Nat := 0
deriving DecidableEq, Repr, Inhabited

/-- A time in milliseconds. -/
def Timing.milliseconds (nanoseconds : Nat) : Binary64 := .ofQuotient nanoseconds 1000000

/-- The state of a bench. -/
structure Bench where
  /-- Where progress is written. -/
  writer : Writer := {}
  /-- The times of the batches to come; a batch without one takes no time. -/
  clock : List Timing := []
deriving DecidableEq, Repr, Inhabited

/-- An action on a bench. -/
abbrev BenchM := ExceptT BenchError (StateM Bench)

namespace BenchM

/-- Carries on with a result. -/
def ofExcept {α : Type} (result : Except BenchError α) : BenchM α := ExceptT.mk (pure result)

/-- Writes a piece of text as a whole, or nothing of it. The empty text is always taken. -/
def write (piece : String) : BenchM Unit := do
  let bench ← get
  if piece.isEmpty then
    return
  else if bench.writer.isFull then
    throw (.output Writer.fullReason)
  else
    set { bench with writer := { bench.writer with text := bench.writer.text ++ piece } }

/-- Writes a line, piece by piece. -/
def writeLine : List String → BenchM Unit
  | [] => write "\n"
  | piece :: pieces => do
    write piece
    writeLine pieces

/-- Reads off the clock what the next batch took. -/
def readClock : BenchM Timing := do
  let bench ← get
  match bench.clock with
  | [] => return {}
  | timing :: clock =>
    set { bench with clock }
    return timing

end BenchM

end OffsideBench
