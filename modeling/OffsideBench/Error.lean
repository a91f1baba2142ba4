import OffsideBench.Files.Walk
import OffsideBench.Number.Decimal
import OffsideBench.Text.Quoted
import OffsideBench.Variant

/-!
# Errors

Everything that ends a benchmark early. An error has a wording of its own and, where it passes on
the complaint of something below it, the wordings of its causes from the outside in.
-/

namespace OffsideBench

/-- Why the text in front of the first dash of a fixture name is no multiplier. -/
inductive BadMultiplier where
  /-- It is no number. -/
  | notNumber
  /-- It is infinite, undefined or negative. -/
  | outOfRange
  /-- A reason in words. -/
  | stated (reason : String)
deriving DecidableEq, Repr, Inhabited

/-- The wording of a reason. -/
def BadMultiplier.message : BadMultiplier → String
  | notNumber => "invalid float literal"
  | outOfRange => "must be finite and non-negative"
  | stated reason => reason

/-- What is wrong with the settings of a benchmark. -/
inductive Misconfiguration where
  /-- The text given as the speed multiplier is no number. -/
  | speedNotNumber (text : String)
  /-- The text given as the speed multiplier is a number that is no multiplier. -/
  | speedOutOfRange (text : String)
  /-- The speed multiplier is infinite, undefined or negative. -/
  | badSpeed (speed : Binary64)
  /-- The measured run of a workload would have no repetitions. -/
  | nothingMeasured (workload : String)
  /-- The warmup runs of a workload would have no repetitions. -/
  | nothingWarmedUp (workload : String)
  /-- A batch was asked for without repetitions. -/
  | noRepetitions (variant : Variant) (run workload : String)
  /-- There is no fixture below a directory. -/
  | noFixtures (suffix : String) (root : Path)
  /-- A reason in words. -/
  | stated (reason : String)
deriving DecidableEq, Repr, Inhabited

/-- The wording of a reason. -/
def Misconfiguration.message : Misconfiguration → String
  | speedNotNumber text => s!"speed multiplier {Text.quote text} is not a number"
  | speedOutOfRange text =>
    s!"speed multiplier must be a finite non-negative number, got {Text.quote text}"
  | badSpeed speed => s!"speed multiplier must be a finite non-negative number, got {speed.text}"
  | nothingMeasured workload => s!"{workload}: measured repetition count rounds to 0"
  | nothingWarmedUp workload => s!"{workload}: warmup repetition count rounds to 0"
  | noRepetitions variant run workload =>
    s!"[{variant.label}] {run} over {workload}: repetition count must be positive"
  | noFixtures suffix root => s!"no fixtures ending in {Text.quote suffix} under {Path.text root}"
  | stated reason => reason

/-- Why a file or directory could not be used. -/
inductive Cause where
  /-- The system refused. -/
  | refused (e : OsError)
  /-- The walk through a directory came to a fault. -/
  | walk (e : WalkError)
  /-- The content of a file is no text. -/
  | notText (fault : Utf8.Fault)
  /-- A reason in words. -/
  | stated (reason : String)
deriving DecidableEq, Repr, Inhabited

/-- The wordings of a cause, from the outside in. -/
def Cause.messages : Cause → List String
  | refused e => [e.message]
  | walk (.refused path e) =>
    [s!"IO error for operation on {Path.text path}: {e.message}", e.message]
  | walk (.loop path ancestor) =>
    [s!"File system loop found: {Path.text path} points to an ancestor {Path.text ancestor}"]
  | notText fault => [fault.message]
  | stated reason => [reason]

/-- Why a benchmark ended early. -/
inductive BenchError where
  /-- The `text` in front of the first dash of a fixture name is no multiplier. -/
  | multiplier (fixture text : String) (why : BadMultiplier)
  /-- A file or directory could not be used. -/
  | file (path : Path) (cause : Cause)
  /-- The settings are of no use. -/
  | misconfigured (why : Misconfiguration)
  /-- A text could not be lexed. -/
  | lex (e : LexError)
  /-- The streams of a fixture differ in length. -/
  | countMismatch (fixture : String) (dented braced : UInt64)
  /-- Progress could not be written. -/
  | output (reason : String)
deriving DecidableEq, Repr, Inhabited

namespace BenchError

/-- The wording of an error. -/
def message : BenchError → String
  | multiplier fixture text why =>
    s!"fixture {Text.quote fixture}: invalid scale multiplier {Text.quote text} ({why.message})"
  | file path _ => s!"failed to read {Path.text path}"
  | misconfigured why => s!"configuration error: {why.message}"
  | lex e => e.message
  | countMismatch fixture dented braced =>
    s!"fixture {Text.quote fixture}: dented stream has {dented} tokens " ++
      s!"but braced stream has {braced}"
  | output _ => "failed to write output"

/-- The wordings of the causes of an error, from the outside in. -/
def causes : BenchError → List String
  | file _ cause => cause.messages
  | output reason => [reason]
  | multiplier .. | misconfigured _ | lex _ | countMismatch .. => []

end BenchError

end OffsideBench
