import OffsideBench.Files.Path
import OffsideBench.Number.Decimal
import OffsideBench.Plan

/-!
# Settings on the command line

The settings that can be made on a command line, their names and the values that they take. Four
settings belong to the program as a whole and may stand in front of the command or behind it; the
others belong to one command.
-/

namespace OffsideBench.CommandLine

/-- A thing that can be set. -/
inductive Setting where
  | profile
  | seed
  | speed
  | out
  | fixtures
  | suffix
  | variant
  | warmupReps
  | warmupBase
  | runsBase
  | output
  | name
  | multiplier
  | statements
  | maxDepth
deriving DecidableEq, Repr, Inhabited

/-- Why a command line is refused. -/
inductive UsageError where
  /-- Help was asked for. -/
  | helpRequested
  /-- There is nothing on it. -/
  | nothingGiven
  /-- There are settings but no command. -/
  | noCommand
  /-- There is no such command. -/
  | unknownCommand (text : String)
  /-- There is no such argument. -/
  | unknownArgument (text : String)
  /-- An argument has a value but takes none. -/
  | unwantedValue (text : String)
  /-- A setting has no value, or one that is not among those it may have. -/
  | invalidValue (s : Setting)
  /-- A setting has a value that is no number of the right kind. -/
  | badNumber (s : Setting)
  /-- A setting was made twice. -/
  | repeated (s : Setting)
  /-- A setting that must be made was not made. -/
  | missing (s : Setting)
deriving DecidableEq, Repr, Inhabited

/-- The settings that were made. -/
structure Given where
  profile : Option Profile := none
  seed : Option UInt64 := none
  speed : Option String := none
  out : Option Path := none
  fixtures : Option Path := none
  suffix : Option String := none
  variants : List Variant := []
  warmupReps : Option UInt32 := none
  warmupBase : Option UInt64 := none
  runsBase : Option UInt64 := none
  output : Option Path := none
  name : Option String := none
  multiplier : Option Binary64 := none
  statements : Option Nat := none
  maxDepth : Option Nat := none
deriving DecidableEq, Repr, Inhabited

/-! ## Numbers -/

/-- Reads digits as a number below a limit. -/
def digits? (limit : Nat) (cs : List Char) : Option Nat :=
  if cs = [] ∨ !cs.all Char.isDigit then none
  else
    let n := Decimal.digitsValue cs
    if n < limit then some n else none

/-- Reads a number below a limit, with or without a plus sign. -/
def natural? (limit : Nat) (s : String) : Option Nat :=
  match s.toList with
  | '+' :: cs => digits? limit cs
  | cs => digits? limit cs

/-- Reads a number below a limit with or without a sign; only zero may be negative. -/
def signed? (limit : Nat) (s : String) : Option Nat :=
  match s.toList with
  | '-' :: cs => digits? 1 cs
  | _ => natural? limit s

/-! ## Names and values -/

namespace Setting

/-- The name of a setting behind two dashes. -/
def long : Setting → String
  | profile => "profile"
  | seed => "seed"
  | speed => "speed"
  | out => "out"
  | fixtures => "fixtures"
  | suffix => "suffix"
  | variant => "variant"
  | warmupReps => "warmup-reps"
  | warmupBase => "warmup-base"
  | runsBase => "runs-base"
  | output => "output"
  | name => "name"
  | multiplier => "multiplier"
  | statements => "statements"
  | maxDepth => "max-depth"

/-- The letter of a setting behind one dash, if it has one. -/
def letter? : Setting → Option Char
  | output => some 'o'
  | statements => some 'n'
  | _ => none

/-- Whether a setting takes several values and may be made several times. -/
def takesMany (s : Setting) : Bool := s == variant

/-- Whether a setting that takes one value was made. -/
def isGiven (g : Given) : Setting → Bool
  | profile => g.profile.isSome
  | seed => g.seed.isSome
  | speed => g.speed.isSome
  | out => g.out.isSome
  | fixtures => g.fixtures.isSome
  | suffix => g.suffix.isSome
  | variant => !g.variants.isEmpty
  | warmupReps => g.warmupReps.isSome
  | warmupBase => g.warmupBase.isSome
  | runsBase => g.runsBase.isSome
  | output => g.output.isSome
  | name => g.name.isSome
  | multiplier => g.multiplier.isSome
  | statements => g.statements.isSome
  | maxDepth => g.maxDepth.isSome

/-- The profile with the given name, among those that can be named. -/
def profileOfName? (name : String) : Option Profile :=
  [Profile.quick, Profile.full].find? fun p => p.name == name

/-- A text as a path; it must not be empty. -/
def path? (text : String) : Option Path := if text.isEmpty then none else some (Path.ofString text)

/-- Makes a setting to a value. -/
def store (s : Setting) (g : Given) (text : String) : Except UsageError Given :=
  let named {α : Type} (f : α → Given) : Option α → Except UsageError Given
    | some a => .ok (f a)
    | none => .error (.invalidValue s)
  let counted {α : Type} (f : α → Given) : Option α → Except UsageError Given
    | some n => .ok (f n)
    | none => .error (.badNumber s)
  let long := (natural? UInt64.size text).map Nat.toUInt64
  match s with
  | profile => named (fun p => { g with profile := some p }) (profileOfName? text)
  | seed => counted (fun n => { g with seed := some n }) long
  | speed => .ok { g with speed := some text }
  | out => named (fun p => { g with out := some p }) (path? text)
  | fixtures => named (fun p => { g with fixtures := some p }) (path? text)
  | suffix => .ok { g with suffix := some text }
  | variant => named (fun v => { g with variants := g.variants ++ [v] }) (Variant.ofName? text)
  | warmupReps =>
    counted (fun n => { g with warmupReps := some n })
      ((signed? UInt32.size text).map Nat.toUInt32)
  | warmupBase => counted (fun n => { g with warmupBase := some n }) long
  | runsBase => counted (fun n => { g with runsBase := some n }) long
  | output => named (fun p => { g with output := some p }) (path? text)
  | name => .ok { g with name := some text }
  | multiplier => counted (fun x => { g with multiplier := some x }) (Binary64.parse? text)
  | statements => counted (fun n => { g with statements := some n }) (natural? UInt64.size text)
  | maxDepth => counted (fun n => { g with maxDepth := some n }) (natural? UInt64.size text)

/-- Makes a setting to all of its values. A second time is refused before the values are looked
at. -/
def accept (s : Setting) (texts : List String) (g : Given) : Except UsageError Given :=
  if texts = [] then .error (.invalidValue s)
  else if !s.takesMany && s.isGiven g then .error (.repeated s)
  else texts.foldlM s.store g

end Setting

/-- The wording of a usage error. -/
def UsageError.message : UsageError → String
  | helpRequested => "help was requested"
  | nothingGiven => "no command was given"
  | noCommand => "a command is required"
  | unknownCommand text => s!"unrecognized command {Text.quote text}"
  | unknownArgument text => s!"unexpected argument {Text.quote text}"
  | unwantedValue text => s!"argument {Text.quote text} takes no value"
  | invalidValue s => s!"invalid or missing value for --{s.long}"
  | badNumber s => s!"the value for --{s.long} is not a number in range"
  | repeated s => s!"--{s.long} was given twice"
  | missing s => s!"--{s.long} is required"

end OffsideBench.CommandLine
