import OffsideBench.Number.Binary64
import OffsideBench.Variant

/-!
# Reports

What a benchmark leaves behind: where it came from, which workloads it read and what was measured.
-/

namespace OffsideBench

/-- The circumstances of a benchmark. -/
structure Provenance where
  /-- The version of the report's form. -/
  schemaVersion : UInt32
  /-- The version of the program. -/
  benchVersion : String
  /-- The name of the profile. -/
  profile : String
  /-- The seed for the sinks. -/
  seed : UInt64
  /-- The factor on all repetition counts. -/
  speed : Binary64
  /-- The number of warmup runs in front of each measured run. -/
  warmupRuns : UInt32
  /-- The time at which the report was made. -/
  timestamp : String
  /-- The revision of the program, if it is known. -/
  revision : Option String
deriving DecidableEq, Repr, Inhabited

/-- A workload and how often it was read. -/
structure PlannedWorkload where
  /-- The name of the fixture. -/
  name : String
  /-- The multiplier of the fixture. -/
  multiplier : Binary64
  /-- The digest of the fixture. -/
  digest : String
  /-- The repetitions of each warmup run. -/
  warmup : UInt64
  /-- The repetitions of the measured run. -/
  measured : UInt64
deriving DecidableEq, Repr, Inhabited

/-- The result of one batch. -/
structure Measurement where
  /-- How the workload was read. -/
  variant : Variant
  /-- The name of the workload. -/
  workload : String
  /-- The name of the batch. -/
  run : String
  /-- The number of characters that were read each time. -/
  chars : UInt64
  /-- The number of tokens that were read each time. -/
  tokensPerRun : UInt64
  /-- The number of tokens that were read in all. -/
  totalTokens : UInt64
  /-- How often the text was read. -/
  repetitions : UInt64
  /-- The time that the batch took, in milliseconds. -/
  totalTime : Binary64
  /-- The time that one repetition took, in milliseconds. -/
  timePerRun : Binary64
  /-- The time spent in reading tokens, in milliseconds. -/
  tokenTime : Binary64
  /-- The final state of the sink. -/
  randomResult : UInt64
deriving DecidableEq, Repr, Inhabited

/-- A report. -/
structure Report where
  provenance : Provenance
  workloads : List PlannedWorkload
  results : List Measurement
deriving DecidableEq, Repr, Inhabited

end OffsideBench
