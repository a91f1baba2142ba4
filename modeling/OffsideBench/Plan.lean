import OffsideBench.Error
import OffsideBench.Random.ChaCha
import OffsideBench.Text.Blank

/-!
# Repetition plans

How often a workload is read. A profile gives two base counts, for each warmup run and for the
measured run. The multiplier of the workload and the speed multiplier of the whole benchmark scale
both; their product is rounded first, then the product with the count.
-/

namespace OffsideBench

open OffsideBench.Random (Generator)

/-- The base counts of a benchmark. -/
inductive Profile where
  | quick
  | full
  | custom (warmup runs : UInt64)
deriving DecidableEq, Repr, Inhabited

namespace Profile

/-- The name of a profile in reports. -/
def name : Profile → String
  | quick => "quick"
  | full => "full"
  | custom .. => "custom"

/-- The repetitions of each warmup run, before scaling. -/
def warmup : Profile → UInt64
  | quick => 300
  | full => 3000
  | custom warmup _ => warmup

/-- The repetitions of the measured run, before scaling. -/
def runs : Profile → UInt64
  | quick => 2500
  | full => 25000
  | custom _ runs => runs

end Profile

/-- The settings of a benchmark. -/
structure Config where
  /-- The base counts. -/
  profile : Profile := .full
  /-- The seed for the sinks. -/
  seed : UInt64 := 0
  /-- The factor on all counts. -/
  speed : Binary64 := .ofNat 1
  /-- The number of warmup runs in front of each measured run. -/
  warmupRuns : UInt32 := 10
deriving DecidableEq, Repr, Inhabited

/-- How often a workload is read. -/
structure Plan where
  /-- The repetitions of each warmup run. -/
  warmup : UInt64
  /-- The repetitions of the measured run. -/
  measured : UInt64
deriving DecidableEq, Repr, Inhabited

namespace Config

/-- The generator that the seed starts. -/
def generator (c : Config) : Generator := .ofSeed c.seed

/-- The state in which every sink starts. -/
def sinkSeed (c : Config) : UInt64 := c.generator.next64.1

/-- Checks the speed multiplier. -/
def validate (c : Config) : Except BenchError Unit :=
  if c.speed.isFiniteNonNegative then .ok () else .error (.misconfigured (.badSpeed c.speed))

/-- A count scaled by a factor, as a whole number. -/
def scaled (count : UInt64) (factor : Binary64) : UInt64 :=
  (Binary64.ofNat count.toNat * factor).toWord

/-- The plan for a workload with the given multiplier. -/
def plan (c : Config) (multiplier : Binary64) : Plan :=
  let factor := multiplier * c.speed
  ⟨scaled c.profile.warmup factor, scaled c.profile.runs factor⟩

end Config

/-- Checks that a plan measures something and, when there are warmup runs, warms up. -/
def Plan.validate (p : Plan) (warmupRuns : UInt32) (workload : String) : Except BenchError Unit :=
  if p.measured = 0 then .error (.misconfigured (.nothingMeasured workload))
  else if 0 < warmupRuns ∧ p.warmup = 0 then .error (.misconfigured (.nothingWarmedUp workload))
  else .ok ()

/-- Reads a speed multiplier. Blanks around it do not count. -/
def parseSpeed (text : String) : Except BenchError Binary64 :=
  match Binary64.parse? (String.ofList (Text.trim text.toList)) with
  | none => .error (.misconfigured (.speedNotNumber text))
  | some speed =>
    if speed.isFiniteNonNegative then .ok speed
    else .error (.misconfigured (.speedOutOfRange text))

end OffsideBench
