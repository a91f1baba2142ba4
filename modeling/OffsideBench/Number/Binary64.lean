/-!
# Binary floating-point numbers

The numbers of the IEEE format `binary64`, as their 64 bits. Every finite magnitude is a whole
number of *units* of 2^-1074, the least positive one, so all arithmetic is exact arithmetic on
natural numbers followed by one rounding: `nearest` gives the magnitude nearest to a quotient, and
of two equally near ones the even one.

Magnitudes are encoded as their bits without the sign. The encoding is monotone, which is why
`nearest` can compute it as the exponent's share plus the rounded significand, with a carry that
moves on to the next exponent, and to infinity, by itself.
-/

namespace OffsideBench

/-- A floating-point number of 64 bits. -/
structure Binary64 where
  /-- The sign bit, eleven bits of exponent and 52 bits of fraction. -/
  bits : UInt64
deriving DecidableEq, Repr, Inhabited

namespace Binary64

/-! ## Magnitudes -/

/-- The number of units in one. -/
def one : Nat := Nat.pow 2 1074

/-- The number of magnitudes with one exponent, which is 2^52. -/
def fractions : Nat := 0x10000000000000

/-- The number of magnitudes, which is 2^63 and the value of the sign bit. -/
def magnitudes : Nat := 0x8000000000000000

/-- The encoding of infinity. -/
def infinite : Nat := 2047 * fractions

/-- The finite magnitude with the given encoding, in units. -/
def units (magnitude : Nat) : Nat :=
  if magnitude < fractions then magnitude
  else (fractions + magnitude % fractions) * Nat.pow 2 (magnitude / fractions - 1)

/-- The whole number nearest to a quotient, the even one of two equally near ones. -/
def roundEven (num den : Nat) : Nat :=
  let q := num / den
  let r := num % den
  if 2 * r < den then q else if den < 2 * r then q + 1 else q + q % 2

/-- The encoding of the magnitude nearest to `num / den` units. -/
def nearest (num den : Nat) : Nat :=
  let shift := Nat.log2 (num / den) - 52
  min infinite (shift * fractions + roundEven num (den * Nat.pow 2 shift))

/-! ## Numbers -/

/-- The number with the given sign and magnitude. -/
def ofMagnitude (negative : Bool) (magnitude : Nat) : Binary64 :=
  ⟨((if negative then magnitudes else 0) + magnitude).toUInt64⟩

/-- Whether the sign bit is set. -/
def negative (x : Binary64) : Bool := magnitudes ≤ x.bits.toNat

/-- The encoding of the magnitude. -/
def magnitude (x : Binary64) : Nat := x.bits.toNat % magnitudes

/-- Whether the number is neither infinite nor undefined. -/
def isFinite (x : Binary64) : Bool := x.magnitude < infinite

/-- Whether the number is infinite. -/
def isInfinite (x : Binary64) : Bool := x.magnitude == infinite

/-- Whether there is no number. -/
def isUndefined (x : Binary64) : Bool := infinite < x.magnitude

/-- The result of an operation that has none. -/
def undefined : Binary64 := ofMagnitude false (infinite + fractions / 2)

/-- Whether the number is less than zero. -/
def isBelowZero (x : Binary64) : Bool := x.negative && x.magnitude != 0 && !x.isUndefined

/-- Whether the number is finite and not less than zero. -/
def isFiniteNonNegative (x : Binary64) : Bool := x.isFinite && !x.isBelowZero

/-- The number with the opposite sign. -/
def neg (x : Binary64) : Binary64 := ofMagnitude (!x.negative) x.magnitude

/-- The number nearest to a quotient. -/
def ofQuotient (num den : Nat) : Binary64 := ofMagnitude false (nearest (num * one) den)

/-- The number nearest to a whole number. -/
def ofNat (n : Nat) : Binary64 := ofQuotient n 1

/-- The product, rounded to the nearest number. -/
def mul (x y : Binary64) : Binary64 :=
  let sign := x.negative != y.negative
  if x.isUndefined || y.isUndefined then
    undefined
  else if x.isInfinite || y.isInfinite then
    if x.magnitude = 0 ∨ y.magnitude = 0 then undefined else ofMagnitude sign infinite
  else
    ofMagnitude sign (nearest (units x.magnitude * units y.magnitude) one)

/-- The quotient of finite numbers, rounded to the nearest number. -/
def div (x y : Binary64) : Binary64 :=
  ofMagnitude (x.negative != y.negative)
    (nearest (units x.magnitude * one) (units y.magnitude))

instance : Mul Binary64 := ⟨mul⟩

instance : Div Binary64 := ⟨div⟩

instance : Neg Binary64 := ⟨neg⟩

/-- The whole number nearest to `num / den`, the greater one of two equally near ones. -/
def roundUp (num den : Nat) : Nat := (2 * num + den) / (2 * den)

/-- The 64-bit word nearest to the number, away from zero when two are equally near. What is no
number or lies below the range becomes zero, and what lies above it the greatest word. -/
def toWord (x : Binary64) : UInt64 :=
  if x.isUndefined || x.negative then 0
  else if x.isInfinite then UInt64.ofNat (UInt64.size - 1)
  else UInt64.ofNat (min (UInt64.size - 1) (roundUp (units x.magnitude) one))

end Binary64

end OffsideBench
