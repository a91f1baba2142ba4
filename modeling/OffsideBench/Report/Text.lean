import OffsideBench.Json.Form
import OffsideBench.Report.Basic

/-!
# Reports as text

The JSON form of reports: how each part of a report is written as a value, the form that such a
value has when it is read, and how the part is got back from it.
-/

namespace OffsideBench

open Json (Value Form)

/-! ## Variants -/

namespace Variant

/-- The value of a variant. -/
def toValue (v : Variant) : Value := .text v.name

/-- The form of a variant. -/
def form : Form := .choice (all.map name)

/-- The variant of a value. -/
def ofValue? : Value → Option Variant
  | .text s => ofName? s
  | _ => none

end Variant

/-! ## Provenances -/

namespace Provenance

/-- The value of a provenance. -/
def toValue (p : Provenance) : Value :=
  .record
    [("schema_version", .word p.schemaVersion.toUInt64),
      ("bench_version", .text p.benchVersion),
      ("profile", .text p.profile),
      ("seed", .word p.seed),
      ("speed_multiplier", .real p.speed),
      ("warmup_reps", .word p.warmupRuns.toUInt64),
      ("timestamp_utc", .text p.timestamp),
      ("git_sha", (p.revision.map Value.text).getD .null)]

/-- The form of a provenance. The revision may be missing. -/
def form : Form :=
  .record
    [⟨"schema_version", .wordBelow UInt32.size, none⟩,
      ⟨"bench_version", .text, none⟩,
      ⟨"profile", .text, none⟩,
      ⟨"seed", .wordBelow UInt64.size, none⟩,
      ⟨"speed_multiplier", .real, none⟩,
      ⟨"warmup_reps", .wordBelow UInt32.size, none⟩,
      ⟨"timestamp_utc", .text, none⟩,
      ⟨"git_sha", .optional .text, some .null⟩]

/-- The revision of a value. -/
def revisionOfValue? : Value → Option (Option String)
  | .null => some none
  | .text s => some (some s)
  | _ => none

/-- The provenance of a value. -/
def ofValue? : Value → Option Provenance
  | .record [(_, .word schemaVersion), (_, .text benchVersion), (_, .text profile),
      (_, .word seed), (_, .real speed), (_, .word warmupRuns), (_, .text timestamp),
      (_, revision)] =>
    (revisionOfValue? revision).map fun revision =>
      { schemaVersion := schemaVersion.toUInt32, benchVersion, profile, seed, speed,
        warmupRuns := warmupRuns.toUInt32, timestamp, revision }
  | _ => none

end Provenance

/-! ## Workloads -/

namespace PlannedWorkload

/-- The value of a workload. -/
def toValue (w : PlannedWorkload) : Value :=
  .record
    [("name", .text w.name),
      ("scale_multiplier", .real w.multiplier),
      ("sha256", .text w.digest),
      ("warmup_repetitions", .word w.warmup),
      ("measured_repetitions", .word w.measured)]

/-- The form of a workload. -/
def form : Form :=
  .record
    [⟨"name", .text, none⟩,
      ⟨"scale_multiplier", .real, none⟩,
      ⟨"sha256", .text, none⟩,
      ⟨"warmup_repetitions", .wordBelow UInt64.size, none⟩,
      ⟨"measured_repetitions", .wordBelow UInt64.size, none⟩]

/-- The workload of a value. -/
def ofValue? : Value → Option PlannedWorkload
  | .record [(_, .text name), (_, .real multiplier), (_, .text digest), (_, .word warmup),
      (_, .word measured)] =>
    some { name, multiplier, digest, warmup, measured }
  | _ => none

end PlannedWorkload

/-! ## Measurements -/

namespace Measurement

/-- The value of a measurement. -/
def toValue (m : Measurement) : Value :=
  .record
    [("variant", m.variant.toValue),
      ("workload", .text m.workload),
      ("run", .text m.run),
      ("chars", .word m.chars),
      ("tokens_per_run", .word m.tokensPerRun),
      ("total_tokens", .word m.totalTokens),
      ("repetitions", .word m.repetitions),
      ("total_ms", .real m.totalTime),
      ("time_per_run_ms", .real m.timePerRun),
      ("token_time_ms", .real m.tokenTime),
      ("random_result", .word m.randomResult)]

/-- The form of a measurement. -/
def form : Form :=
  .record
    [⟨"variant", Variant.form, none⟩,
      ⟨"workload", .text, none⟩,
      ⟨"run", .text, none⟩,
      ⟨"chars", .wordBelow UInt64.size, none⟩,
      ⟨"tokens_per_run", .wordBelow UInt64.size, none⟩,
      ⟨"total_tokens", .wordBelow UInt64.size, none⟩,
      ⟨"repetitions", .wordBelow UInt64.size, none⟩,
      ⟨"total_ms", .real, none⟩,
      ⟨"time_per_run_ms", .real, none⟩,
      ⟨"token_time_ms", .real, none⟩,
      ⟨"random_result", .wordBelow UInt64.size, none⟩]

/-- The measurement of a value. -/
def ofValue? : Value → Option Measurement
  | .record [(_, variant), (_, .text workload), (_, .text run), (_, .word chars),
      (_, .word tokensPerRun), (_, .word totalTokens), (_, .word repetitions),
      (_, .real totalTime), (_, .real timePerRun), (_, .real tokenTime),
      (_, .word randomResult)] =>
    (Variant.ofValue? variant).map fun variant =>
      { variant, workload, run, chars, tokensPerRun, totalTokens, repetitions, totalTime,
        timePerRun, tokenTime, randomResult }
  | _ => none

end Measurement

/-! ## Reports -/

namespace Report

/-- The value of a report. -/
def toValue (r : Report) : Value :=
  .record
    [("run", r.provenance.toValue),
      ("workloads", .list (r.workloads.map PlannedWorkload.toValue)),
      ("results", .list (r.results.map Measurement.toValue))]

/-- The form of a report. -/
def form : Form :=
  .record
    [⟨"run", Provenance.form, none⟩,
      ⟨"workloads", .list PlannedWorkload.form, none⟩,
      ⟨"results", .list Measurement.form, none⟩]

/-- The report of a value. -/
def ofValue? : Value → Option Report
  | .record [(_, provenance), (_, .list workloads), (_, .list results)] => do
    return { provenance := ← Provenance.ofValue? provenance
             workloads := ← workloads.mapM PlannedWorkload.ofValue?
             results := ← results.mapM Measurement.ofValue? }
  | _ => none

/-- A report as text. -/
def text (r : Report) : String := String.ofList (r.toValue.print 0)

/-- Reads a report. -/
def parse (text : String) : Except Json.Fault Report :=
  match form.parse text.toList with
  | .error e => .error e
  | .ok v =>
    match ofValue? v with
    | none => .error .mismatch
    | some r => .ok r

end Report

end OffsideBench
