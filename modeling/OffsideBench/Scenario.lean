import OffsideBench.Batch
import OffsideBench.Catalog
import OffsideBench.Plan

/-!
# Scenarios

Measuring one variant over several workloads. All plans are checked before anything is run, so a
plan that is of no use stops the scenario without a trace; a text that cannot be lexed stops it at
the workload in question, before anything is written about that one.
-/

namespace OffsideBench

/-- Settings and the workloads that they are for. -/
structure Scenario where
  config : Config
  workloads : List Workload
deriving DecidableEq, Repr, Inhabited

namespace Scenario

/-- A scenario, unless the settings are of no use. -/
def make (config : Config) (workloads : List Workload) : Except BenchError Scenario :=
  config.validate.map fun _ => ⟨config, workloads⟩

/-- A workload with its plan. -/
def planned (config : Config) (w : Workload) : PlannedWorkload :=
  let plan := config.plan w.multiplier
  ⟨w.name, w.multiplier, w.digest, plan.warmup, plan.measured⟩

/-- The workloads with their plans. -/
def plannedWorkloads (s : Scenario) : List PlannedWorkload := s.workloads.map (planned s.config)

/-- Checks the plans of all workloads in order. -/
def validate (s : Scenario) : Except BenchError Unit :=
  s.workloads.forM fun w => (s.config.plan w.multiplier).validate s.config.warmupRuns w.name

/-- The text of a workload that is ready for the variant, and the number of tokens in it. -/
def prepare (variant : Variant) (w : Workload) : Except LexError (String × Nat) := do
  let text ← variant.prepare w.source
  return (text, ← (variant.drain text).count)

/-- The measured batch of a workload. -/
def mainBatch (config : Config) (variant : Variant) (w : Workload) (text : String) : Batch :=
  ⟨variant, w.name, text, (config.plan w.multiplier).measured, "runs"⟩

/-- The batch of a workload that is repeated as warmup. -/
def warmupBatch (config : Config) (variant : Variant) (w : Workload) (text : String) : Batch :=
  ⟨variant, w.name, text, (config.plan w.multiplier).warmup, "warmup"⟩

/-- Warms up and measures one workload. -/
def performWorkload (config : Config) (variant : Variant) (w : Workload) : BenchM Measurement := do
  let (text, count) ← BenchM.ofExcept ((prepare variant w).mapError .lex)
  let label := variant.label
  BenchM.writeLine
    ["[", label, "]: ", toString count, " tokens in ", toString text.length, " chars"]
  (warmupBatch config variant w text).warmUp config.sinkSeed 0 config.warmupRuns.toNat
  BenchM.writeLine []
  BenchM.writeLine ["Starting main runs..."]
  let m ← (mainBatch config variant w text).perform config.sinkSeed
  BenchM.writeLine []
  BenchM.writeLine ["[", label, "] ", w.name, ": ", m.timePerRun.text, " ms per run"]
  BenchM.writeLine []
  return m

/-- Measures a variant over all workloads, in order. -/
def perform (s : Scenario) (variant : Variant) : BenchM (List Measurement) := do
  BenchM.ofExcept s.validate
  s.workloads.mapM (performWorkload s.config variant)

/-- The batches that measuring some variants comes to, in order: none when a plan is of no use, and
none from the first workload on that cannot be lexed. -/
def batches (s : Scenario) (variants : List Variant) : List Batch :=
  match s.validate with
  | .error _ => []
  | .ok _ =>
    let pairs := variants.flatMap fun v => s.workloads.map fun w => (v, w, prepare v w)
    (pairs.takeWhile fun p => p.2.2.isOk).flatMap fun (v, w, prepared) =>
      match prepared with
      | .error _ => []
      | .ok (text, _) =>
        List.replicate s.config.warmupRuns.toNat (warmupBatch s.config v w text) ++
          [mainBatch s.config v w text]

end Scenario

end OffsideBench
