import OffsideBench.Calendar
import OffsideBench.CommandLine.Invocation
import OffsideBench.Fixture.File
import OffsideBench.Report.Text
import OffsideBench.Scenario

/-!
# Sessions

What the program does from its start to its end: it reads and writes files, writes progress to the
bench and notices beside it. A report is written only when everything that it reports on has been
done.
-/

namespace OffsideBench

open CommandLine (Invocation)

/-- What a session touches. -/
structure Machine where
  /-- The files. -/
  tree : FileTree := .empty
  /-- Where progress goes, and the clock. -/
  bench : Bench := {}
  /-- What was written beside the progress. -/
  notices : String := ""
deriving Inhabited

/-- What a session is told by its surroundings. -/
structure Surroundings where
  /-- The speed multiplier that holds unless the command line gives another. -/
  speed : Option String := none
  /-- The revision of the program, if it is known. -/
  revision : Option String := none
  /-- The time, in seconds after the start of 1970. -/
  now : UInt64 := 0
deriving DecidableEq, Repr, Inhabited

namespace Surroundings

/-- The variable that holds the speed multiplier. -/
def speedVariable : String := "BENCHGRAM_RUNS_MULTIPLIER"

/-- The variables that hold the revision; the first that is set counts. -/
def revisionVariables : List String := ["GIT_SHA", "GITHUB_SHA"]

/-- The surroundings that variables describe at some time. -/
def ofVariables (value? : String → Option String) (now : UInt64) : Surroundings :=
  { speed := value? speedVariable, revision := revisionVariables.findSome? value?, now }

end Surroundings

/-- An action on a machine. -/
abbrev SessionM := ExceptT BenchError (StateM Machine)

namespace Session

/-- The version of the program. -/
def version : String := "0.1.0"

/-- The version of the form of its reports. -/
def schemaVersion : UInt32 := 1

/-- Carries on with a result. -/
def ofExcept {α : Type} (result : Except BenchError α) : SessionM α := ExceptT.mk (pure result)

/-- Acts on the bench of a machine. -/
def onBench {α : Type} (action : BenchM α) : SessionM α :=
  ExceptT.mk fun machine =>
    let (result, bench) := action.run machine.bench
    (result, { machine with bench })

/-- Acts on the files of a machine. A refusal is reported for a path. -/
def onFiles (path : Path) (action : FileM Unit) : SessionM Unit :=
  ExceptT.mk fun machine =>
    let (result, tree) := action.run machine.tree
    (result.mapError fun e => .file path (.refused e), { machine with tree })

/-- Writes a line beside the progress. -/
def notify (line : String) : SessionM Unit :=
  modify fun machine => { machine with notices := machine.notices ++ line ++ "\n" }

/-- The first twelve characters of a revision or digest. -/
def abbreviate (s : String) : String := String.ofList (s.toList.take 12)

/-- The circumstances of a benchmark with some settings. -/
def provenance (surroundings : Surroundings) (config : Config) : Provenance :=
  { schemaVersion
    benchVersion := version
    profile := config.profile.name
    seed := config.seed
    speed := config.speed
    warmupRuns := config.warmupRuns
    timestamp := (Instant.ofSeconds surroundings.now).text
    revision := surroundings.revision.map abbreviate }

/-- The variants to run when some were named: those, or all when none was. -/
def chosenVariants (variants : List Variant) : List Variant :=
  if variants.isEmpty then Variant.all else variants

/-- The scenario over the fixtures below a directory. -/
def scenario (tree : FileTree) (config : Config) (fixtures : Path) (suffix : String) :
    Except BenchError Scenario := do
  Scenario.make config (← Catalog.load tree fixtures suffix)

/-- Measures variants one after another, and writes the report if there is a place for it. -/
def run (surroundings : Surroundings) (config : Config) (fixtures : Path) (suffix : String)
    (variants : List Variant) (out : Option Path) : SessionM Unit := do
  let s ← ofExcept (scenario (← get).tree config fixtures suffix)
  let results ← (chosenVariants variants).mapM fun v => onBench (s.perform v)
  match out with
  | none => return
  | some path =>
    let report : Report := ⟨provenance surroundings config, s.plannedWorkloads, results.flatten⟩
    onFiles path (.change fun tree => tree.write path report.text.toUTF8)

/-- The numbers of tokens in the streams of a fixture: dented, with plain line breaks, braced. -/
def tokenCounts (source : String) : Except LexError (Nat × Nat × Nat) := do
  let dented ← (Variant.dented.drain source).count
  let raw ← (Variant.rawDented.drain source).count
  let braced ← (Variant.braced.drain (← Variant.braced.prepare source)).count
  return (dented, raw, braced)

/-- Lists one workload in two lines. -/
def listWorkload (config : Config) (w : Workload) : BenchM Unit := do
  let (dented, raw, braced) ← BenchM.ofExcept ((tokenCounts w.source).mapError .lex)
  let plan := config.plan w.multiplier
  BenchM.writeLine
    [w.name, ": multiplier ", w.multiplier.text, ", ", toString w.source.length, " chars, sha256 ",
      abbreviate w.digest]
  BenchM.writeLine
    ["  tokens: dented ", toString dented, ", raw ", toString raw, ", braced ", toString braced,
      "; runs: warmup ", toString config.warmupRuns, " x ", toString plan.warmup, ", measured ",
      toString plan.measured]
  if dented ≠ braced then
    throw (.countMismatch w.name dented.toUInt64 braced.toUInt64)

/-- Lists the fixtures below a directory. -/
def catalog (config : Config) (fixtures : Path) (suffix : String) : SessionM Unit := do
  let workloads ← ofExcept (Catalog.load (← get).tree fixtures suffix)
  onBench (workloads.forM (listWorkload config))

/-- Writes a synthetic fixture and says what was written. -/
def generate (output : Path) (name : String) (multiplier : Option Binary64)
    (config : Fixture.Config) : SessionM Unit := do
  onFiles output (Fixture.saving output multiplier name config)
  let path := Fixture.filePath output multiplier name
  let size := match (← get).tree.content? path with
    | some content => content.size
    | none => 0
  notify s!"Fixture saved: {Path.text path}"
  notify s!"  Statements: {config.statements}"
  notify s!"  Max depth: {config.maxDepth}"
  notify s!"  Seed: {config.seed}"
  notify s!"  Size: {size} bytes"

/-- The settings of the benchmark that a command line asks for. -/
def config (inv : Invocation) : Except BenchError Config :=
  (parseSpeed inv.speed).map fun speed =>
    let shared : Config := { profile := inv.profile, seed := inv.seed, speed }
    match inv.command with
    | .run _ _ _ warmupRuns (some (warmup, runs)) =>
      { shared with profile := .custom warmup runs, warmupRuns }
    | .run _ _ _ warmupRuns none => { shared with warmupRuns }
    | .catalog .. | .generate .. => shared

/-- Does what a command line asks for. The speed multiplier is read first, also by a command that
has no use for it. -/
def perform (surroundings : Surroundings) (inv : Invocation) : SessionM Unit := do
  let config ← ofExcept (config inv)
  match inv.command with
  | .run fixtures suffix variants _ _ => run surroundings config fixtures suffix variants inv.out
  | .catalog fixtures suffix => catalog config fixtures suffix
  | .generate output name multiplier program => generate output name multiplier program

/-- The batches that a command line leads to, in the order in which they are run. -/
def batches (tree : FileTree) (inv : Invocation) : List Batch :=
  match config inv, inv.command with
  | .ok config, .run fixtures suffix variants _ _ =>
    match scenario tree config fixtures suffix with
    | .ok s => s.batches (chosenVariants variants)
    | .error _ => []
  | _, _ => []

end Session

end OffsideBench
