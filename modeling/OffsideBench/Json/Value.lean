import OffsideBench.Json.Number

/-!
# JSON values

The values that records are written as, and their text: one element or field a line, each level
indented by two more spaces.
-/

namespace OffsideBench.Json

/-- A value. -/
inductive Value where
  | null
  /-- A whole number of 64 bits. -/
  | word (n : UInt64)
  /-- A floating-point number. -/
  | real (x : Binary64)
  | text (s : String)
  | list (vs : List Value)
  | record (fields : List (String × Value))
deriving Repr, Inhabited

/-- The start of a new line at some depth. -/
def newLine (depth : Nat) : List Char := '\n' :: List.replicate (2 * depth) ' '

/-- Items between brackets, each on a line of its own. -/
def enclose (opening closing : Char) (depth : Nat) : List (List Char) → List Char
  | [] => [opening, closing]
  | item :: items =>
    opening :: newLine (depth + 1) ++ item ++
      items.flatMap (fun i => ',' :: newLine (depth + 1) ++ i) ++ newLine depth ++ [closing]

namespace Value

mutual

/-- The text of a value at some depth. What is no finite number is written as `null`. -/
def print (depth : Nat) : Value → List Char
  | null => "null".toList
  | word n => Nat.toDigits 10 n.toNat
  | real x => if x.isFinite then Json.real x else "null".toList
  | text s => quote s
  | list vs => enclose '[' ']' depth (printElements (depth + 1) vs)
  | record fields => enclose '{' '}' depth (printFields (depth + 1) fields)

/-- The texts of the elements of a list. -/
def printElements (depth : Nat) : List Value → List (List Char)
  | [] => []
  | v :: vs => print depth v :: printElements depth vs

/-- The texts of the fields of a record. -/
def printFields (depth : Nat) : List (String × Value) → List (List Char)
  | [] => []
  | (name, v) :: fields => (quote name ++ ':' :: ' ' :: print depth v) :: printFields depth fields

end

end Value

end OffsideBench.Json
