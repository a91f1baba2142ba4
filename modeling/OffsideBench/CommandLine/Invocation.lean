import OffsideBench.CommandLine.Arguments
import OffsideBench.Fixture.Generate
import OffsideBench.Fixture.Name

/-!
# Invocations

What a command line asks for. Settings that are made behind the command win over those in front of
it, those over the environment, and that over what holds by default.
-/

namespace OffsideBench.CommandLine

/-- What the program is to do. -/
inductive Command where
  /-- Measures variants over the fixtures below a directory. -/
  | run (fixtures : Path) (suffix : String) (variants : List Variant) (warmupRuns : UInt32)
      (base : Option (UInt64 × UInt64))
  /-- Lists the fixtures below a directory. -/
  | catalog (fixtures : Path) (suffix : String)
  /-- Writes a synthetic fixture. -/
  | generate (output : Path) (name : String) (multiplier : Option Binary64)
      (config : Fixture.Config)
deriving Repr, Inhabited

/-- What the program is to do, and how. -/
structure Invocation where
  profile : Profile
  seed : UInt64
  /-- The speed multiplier as it was given. -/
  speed : String
  /-- Where the report goes, if it is wanted. -/
  out : Option Path
  command : Command
deriving Repr, Inhabited

/-- The first of some settings that was not made. -/
def firstMissing? (g : Given) (settings : List Setting) : Option Setting :=
  settings.find? fun s => !s.isGiven g

/-- The setting that a command needs but that was not made behind it. -/
def missing? (c : CommandName) (g : Given) : Option Setting :=
  match c with
  | .run =>
    firstMissing? g <|
      [.fixtures] ++ (if g.warmupBase.isSome then [.runsBase] else []) ++
        if g.runsBase.isSome then [.warmupBase] else []
  | .catalog => firstMissing? g [.fixtures]
  | .generate => firstMissing? g [.output]
  | .help => none

/-- The settings in front of the command and behind it. Those that belong to the program as a whole
may stand in both places. -/
def combine (outer inner : Given) : Given :=
  { inner with
    profile := inner.profile.or outer.profile
    seed := inner.seed.or outer.seed
    speed := inner.speed.or outer.speed
    out := inner.out.or outer.out }

/-- What a command is to do with the settings that were made. -/
def command (c : CommandName) (g : Given) : Command :=
  let fixtures := g.fixtures.getD []
  let suffix := g.suffix.getD Fixture.defaultSuffix
  match c with
  | .run =>
    let base := g.warmupBase.bind fun warmup => g.runsBase.map fun runs => (warmup, runs)
    let default : Config := {}
    .run fixtures suffix g.variants (g.warmupReps.getD default.warmupRuns) base
  | .generate =>
    let default : Fixture.Config := {}
    .generate (g.output.getD []) (g.name.getD "synthetic") g.multiplier
      { statements := g.statements.getD default.statements
        maxDepth := g.maxDepth.getD default.maxDepth
        seed := g.seed.getD default.seed }
  | .catalog | .help => .catalog fixtures suffix

/-- The fault of a call for help: there is none unless it is about a command that does not exist. -/
def helpFault : List String → UsageError
  | [] => .helpRequested
  | name :: more =>
    match CommandName.ofString? name, more with
    | none, _ => .unknownCommand name
    | some _, [] => .helpRequested
    | some _, text :: _ => .unknownCommand text

/-- Reads a command line without the name of the program. `speed` is the speed multiplier of the
environment. -/
def parse (args : List String) (speed : Option String) : Except UsageError Invocation := do
  match ← Reading.read .top {} false args with
  | (reading, none) =>
    let outer ← reading.settle
    .error (if outer.given = {} ∧ speed = none then .nothingGiven else .noCommand)
  | (_, some (.help, rest)) => .error (helpFault rest)
  | (reading, some (c, rest)) =>
    let (behind, _) ← Reading.read (.behind c) {} false rest
    let inner ← behind.settle
    match missing? c inner.given with
    | some s => .error (.missing s)
    | none =>
      let outer ← reading.settle
      let g := combine outer.given inner.given
      let default : Config := {}
      return {
        profile := g.profile.getD default.profile
        seed := g.seed.getD default.seed
        speed := (g.speed.or speed).getD default.speed.text
        out := g.out
        command := command c g }

end OffsideBench.CommandLine
