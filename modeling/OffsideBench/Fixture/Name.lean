import OffsideBench.Error

/-!
# Fixture names

The name of a fixture file may begin with a multiplier and a dash. The multiplier scales how often
the fixture is read, so that large and small fixtures take comparable time.
-/

namespace OffsideBench.Fixture

/-- The suffix by which fixtures are known. -/
def defaultSuffix : String := ".benchdent"

/-- The name of the file for a fixture. -/
def fileName (multiplier : Option Binary64) (name : String) : String :=
  match multiplier with
  | some m => m.text ++ "-" ++ name ++ defaultSuffix
  | none => name ++ defaultSuffix

/-- The text in front of the first dash of a name; none when the name has no dash or starts with
one. -/
def multiplierText? (name : List Char) : Option (List Char) :=
  match name.span (· ≠ '-') with
  | ([], _) | (_, []) => none
  | (text, _ :: _) => some text

/-- The multiplier that a fixture name begins with, or one. -/
def multiplierOf (name : String) : Except BenchError Binary64 :=
  match multiplierText? name.toList with
  | none => .ok (.ofNat 1)
  | some text =>
    let refuse (why : BadMultiplier) := .error (.multiplier name (String.ofList text) why)
    match Binary64.parse? (String.ofList text) with
    | none => refuse .notNumber
    | some m => if m.isFiniteNonNegative then .ok m else refuse .outOfRange

end OffsideBench.Fixture
