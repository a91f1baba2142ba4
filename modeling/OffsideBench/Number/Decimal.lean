import OffsideBench.Number.Binary64

/-!
# Decimal text of floating-point numbers

A decimal is a coefficient and a power of ten. `Decimal.magnitude` rounds it to the nearest
floating-point magnitude; `Decimal.shortest` goes the other way and finds the decimal with the
fewest digits that rounds back, the nearest such decimal if there are several. On a grid of decimals
with a given number of digits only the two neighbours of the exact value can be nearest, so it tests
those, from one digit on.

The exact value of a magnitude is a decimal too. It stands at the end of the search, so whatever is
found rounds back.
-/

namespace OffsideBench

/-- The number `coefficient * 10 ^ exponent`. -/
structure Decimal where
  /-- The digits as a whole number. -/
  coefficient : Nat
  /-- The power of ten. -/
  exponent : Int
deriving DecidableEq, Repr, Inhabited

/-- Which of two equally near decimals is taken. -/
inductive Tie where
  /-- The greater one. -/
  | up
  /-- The one with an even last digit. -/
  | even
deriving DecidableEq, Repr, Inhabited

namespace Decimal

/-- The digits of the coefficient. -/
def digits (d : Decimal) : List Char := Nat.toDigits 10 d.coefficient

/-- The numerator of the value in units. -/
def num (d : Decimal) : Nat := d.coefficient * Nat.pow 10 d.exponent.toNat * Binary64.one

/-- The denominator of the value in units. -/
def den (d : Decimal) : Nat := Nat.pow 10 (-d.exponent).toNat

/-- The encoding of the nearest floating-point magnitude. Decimals far beyond the range are decided
without computing their power of ten. -/
def magnitude (d : Decimal) : Nat :=
  if d.coefficient = 0 then 0
  else if 310 < d.digits.length + d.exponent then Binary64.infinite
  else if d.digits.length + d.exponent < -330 then 0
  else Binary64.nearest d.num d.den

/-- The exact value of a number of units. -/
def ofUnits (units : Nat) : Decimal := ⟨units * Nat.pow 5 1074, -1074⟩

/-- The exponent of the leading digit of a positive number of units. -/
def leadingExponent (units : Nat) : Int :=
  (Nat.toDigits 10 (units * Nat.pow 10 400 / Binary64.one)).length - 401

/-- The multiple of `10 ^ exponent` just below a number of units, or equal to it. -/
def below (units : Nat) (exponent : Int) : Nat :=
  units * Nat.pow 10 (-exponent).toNat / (Binary64.one * Nat.pow 10 exponent.toNat)

/-- Whether the next multiple of `10 ^ exponent` is nearer to a number of units than the one below
it. -/
def upperIsNearer (tie : Tie) (units : Nat) (exponent : Int) : Bool :=
  let num := units * Nat.pow 10 (-exponent).toNat
  let den := Binary64.one * Nat.pow 10 exponent.toNat
  let twice := 2 * (num % den)
  den < twice || (twice == den && (tie == .up || num / den % 2 == 1))

/-- The decimal with `count` digits that rounds to the given magnitude, if there is one; the nearest
to its exact value if there are two. -/
def withDigits? (tie : Tie) (magnitude count : Nat) : Option Decimal :=
  let units := Binary64.units magnitude
  let exponent := leadingExponent units - count + 1
  let c := below units exponent
  let lower : Decimal := ⟨c, exponent⟩
  let upper : Decimal :=
    if c + 1 = Nat.pow 10 count then ⟨Nat.pow 10 (count - 1), exponent + 1⟩ else ⟨c + 1, exponent⟩
  let ordered := if upperIsNearer tie units exponent then [upper, lower] else [lower, upper]
  ordered.find? fun d => d.magnitude == magnitude

/-- The decimal with the fewest digits that rounds to the given finite, positive magnitude. -/
def shortest (tie : Tie) (magnitude : Nat) : Decimal :=
  ((List.range 17).findSome? fun n => withDigits? tie magnitude (n + 1)).getD
    (ofUnits (Binary64.units magnitude))

/-! ## Positional notation -/

/-- The decimal without an exponent, and without a point when it is whole. -/
def positional (d : Decimal) : List Char :=
  let digits := d.digits
  if 0 ≤ d.exponent then
    digits ++ List.replicate d.exponent.toNat '0'
  else
    let places := (-d.exponent).toNat
    let padded := List.replicate (places + 1 - digits.length) '0' ++ digits
    padded.take (padded.length - places) ++ '.' :: padded.drop (padded.length - places)

/-- The exponent of the leading digit. -/
def scientificExponent (d : Decimal) : Int := d.exponent + d.digits.length - 1

/-- The decimal with one digit in front of the point and an exponent with a sign. -/
def scientific (d : Decimal) : List Char :=
  let e := d.scientificExponent
  let mantissa :=
    match d.digits with
    | [] => []
    | [digit] => [digit]
    | digit :: rest => digit :: '.' :: rest
  mantissa ++ 'e' :: (if e < 0 then '-' else '+') :: Nat.toDigits 10 e.natAbs

end Decimal

/-! ## Numbers as text -/

namespace Binary64

/-- Puts a sign in front of the text of a negative number. -/
def signed (x : Binary64) (text : List Char) : String :=
  String.ofList (if x.negative then '-' :: text else text)

/-- A number in positional notation: the fewest digits that read back. -/
def text (x : Binary64) : String :=
  if x.isUndefined then "NaN"
  else if x.isInfinite then x.signed ['i', 'n', 'f']
  else if x.magnitude = 0 then x.signed ['0']
  else x.signed (Decimal.shortest .up x.magnitude).positional

/-- A number in positional notation with the given number of decimal places. -/
def fixed (places : Nat) (x : Binary64) : String :=
  if x.isUndefined || x.isInfinite then x.text
  else
    let rounded := roundEven (units x.magnitude * Nat.pow 10 places) one
    x.signed (Decimal.positional ⟨rounded, -places⟩)

end Binary64

/-! ## Reading numbers -/

namespace Decimal

/-- The value of a row of digits. -/
def digitsValue (cs : List Char) : Nat := cs.foldl (fun n c => 10 * n + (c.toNat - '0'.toNat)) 0

/-- The exponent behind the digits of a number: nothing, or `e` and a whole number. -/
def exponent? : List Char → Option Int
  | [] => some 0
  | c :: cs =>
    if c = 'e' ∨ c = 'E' then
      let (sign, digits) := match cs with
        | '-' :: cs => ((-1 : Int), cs)
        | '+' :: cs => (1, cs)
        | cs => (1, cs)
      if digits = [] ∨ !digits.all Char.isDigit then none else some (sign * digitsValue digits)
    else
      none

/-- Reads digits with at most one point and at least one digit, and an exponent behind them. -/
def parse? (cs : List Char) : Option Decimal :=
  let whole := cs.takeWhile Char.isDigit
  let (places, rest) := match cs.dropWhile Char.isDigit with
    | '.' :: rest => (rest.takeWhile Char.isDigit, rest.dropWhile Char.isDigit)
    | rest => ([], rest)
  if whole ++ places = [] then
    none
  else
    (exponent? rest).map fun e => ⟨digitsValue (whole ++ places), e - places.length⟩

end Decimal

namespace Binary64

/-- Reads a number without its sign. -/
def parseMagnitude? (cs : List Char) : Option Nat :=
  let word := String.ofList (cs.map Char.toLower)
  if word = "inf" ∨ word = "infinity" then some infinite
  else if word = "nan" then some undefined.magnitude
  else (Decimal.parse? cs).map Decimal.magnitude

/-- Reads a number: a sign or none, then digits with at most one point and at most one exponent, or
the name of what is no finite number. -/
def parse? (s : String) : Option Binary64 :=
  match s.toList with
  | '-' :: cs => (parseMagnitude? cs).map (ofMagnitude true)
  | '+' :: cs => (parseMagnitude? cs).map (ofMagnitude false)
  | cs => (parseMagnitude? cs).map (ofMagnitude false)

end Binary64

end OffsideBench
