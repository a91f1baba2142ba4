import OffsideBench.Json.Text
import OffsideBench.Number.Decimal

/-!
# JSON numbers

Writing and reading numbers in JSON.

A floating-point number is written with the fewest digits that determine it, without an exponent
from 1e-5 up to 1e16. When a number is read, only those digits count that fit a 64-bit word
together; the word is then multiplied or divided by a power of ten, so the result may be a neighbour
of the number nearest to the text. A number beyond the range is malformed.
-/

namespace OffsideBench.Json

/-! ## Writing -/

/-- A finite floating-point number as it is written. It never looks like a whole number. -/
def real (x : Binary64) : List Char :=
  let sign := if x.negative then ['-'] else []
  if x.magnitude = 0 then
    sign ++ ['0', '.', '0']
  else
    let d := Decimal.shortest .even x.magnitude
    if -5 ≤ d.scientificExponent ∧ d.scientificExponent < 16 then
      sign ++ d.positional ++ if 0 ≤ d.exponent then ['.', '0'] else []
    else
      sign ++ d.scientific

/-! ## Reading -/

/-- A number that was read. -/
inductive Number where
  /-- A whole number that fits a 64-bit word. -/
  | natural (n : UInt64)
  /-- Any other number. -/
  | real (x : Binary64)
deriving DecidableEq, Repr, Inhabited

/-- The parts of a number in a text. -/
structure Numeral where
  negative : Bool
  /-- The digits in front of the point. -/
  whole : List Char
  /-- The digits behind the point, if there is one. -/
  places : Option (List Char)
  /-- Whether the exponent is negative, and its digits, if there is one. -/
  exponent : Option (Bool × List Char)
deriving DecidableEq, Repr, Inhabited

/-- Reads digits, of which there must be one. -/
def digits (cs : List Char) : Except Fault (List Char × List Char) :=
  match cs.takeWhile Char.isDigit, cs.dropWhile Char.isDigit with
  | [], [] => .error .incomplete
  | [], _ :: _ => .error .malformed
  | ds, rest => .ok (ds, rest)

/-- Reads digits that do not start with a needless zero. -/
def wholeDigits (cs : List Char) : Except Fault (List Char × List Char) :=
  match digits cs with
  | .error e => .error e
  | .ok ('0' :: _ :: _, _) => .error .malformed
  | .ok p => .ok p

/-- Reads a point and digits, if there is a point. -/
def point (cs : List Char) : Except Fault (Option (List Char) × List Char) :=
  match cs with
  | '.' :: cs => (digits cs).map fun p => (some p.1, p.2)
  | cs => .ok (none, cs)

/-- Reads an exponent, if there is one. -/
def exponent (cs : List Char) : Except Fault (Option (Bool × List Char) × List Char) :=
  match cs with
  | [] => .ok (none, [])
  | c :: rest =>
    if c = 'e' ∨ c = 'E' then
      match rest with
      | '-' :: rest => (digits rest).map fun p => (some (true, p.1), p.2)
      | '+' :: rest => (digits rest).map fun p => (some (false, p.1), p.2)
      | rest => (digits rest).map fun p => (some (false, p.1), p.2)
    else
      .ok (none, c :: rest)

/-- Reads a number behind its sign. -/
def unsigned (negative : Bool) (cs : List Char) : Except Fault (Numeral × List Char) :=
  match wholeDigits cs with
  | .error e => .error e
  | .ok (whole, cs) =>
    match point cs with
    | .error e => .error e
    | .ok (places, cs) => (exponent cs).map fun p => (⟨negative, whole, places, p.1⟩, p.2)

/-- Reads the parts of a number. -/
def numeral (cs : List Char) : Except Fault (Numeral × List Char) :=
  match cs with
  | '-' :: cs => unsigned true cs
  | cs => unsigned false cs

/-- Whether a number starts with this character. -/
def startsNumber (c : Char) : Bool := c == '-' || c.isDigit

/-- Appends digits to a number as long as it fits a 64-bit word; gives the number and the digits
that were left out. -/
def absorb (n : Nat) : List Char → Nat × List Char
  | [] => (n, [])
  | c :: cs =>
    let m := 10 * n + (c.toNat - '0'.toNat)
    if m < UInt64.size then absorb m cs else (n, c :: cs)

/-- A power of ten as a floating-point number. -/
def powerOfTen (n : Nat) : Binary64 := .ofMagnitude false (Decimal.magnitude ⟨1, n⟩)

/-- The exponent of the greatest power of ten that is finite. -/
def greatestExponent : Nat := 308

/-- Divides by a power of ten, in steps when it is not finite. -/
def divideByPower (x : Binary64) (n : Nat) : Binary64 :=
  if n ≤ greatestExponent then x / powerOfTen n
  else if x.magnitude = 0 then x
  else divideByPower (x / powerOfTen greatestExponent) (n - greatestExponent)
termination_by n
decreasing_by
  simp only [greatestExponent] at *
  omega

/-- The number `n * 10 ^ e`. -/
def scaled (n : Nat) (e : Int) : Except Fault Binary64 :=
  let x := Binary64.ofNat n
  if e < 0 then
    .ok (divideByPower x (-e).toNat)
  else if n = 0 then
    .ok x
  else if greatestExponent < e.toNat then
    .error .malformed
  else
    let y := x * powerOfTen e.toNat
    if y.isInfinite then .error .malformed else .ok y

/-- The value of the exponent. -/
def Numeral.exponentValue (m : Numeral) : Int :=
  match m.exponent with
  | none => 0
  | some (true, ds) => -(Decimal.digitsValue ds : Int)
  | some (false, ds) => Decimal.digitsValue ds

/-- The number that a text denotes. -/
def Numeral.value (m : Numeral) : Except Fault Number :=
  let signed (x : Binary64) : Number := .real (if m.negative then -x else x)
  let (n, dropped) := absorb 0 m.whole
  if m.places = none ∧ m.exponent = none ∧ dropped = [] then
    .ok (if m.negative then signed (.ofNat n) else .natural n.toUInt64)
  else
    let places := m.places.getD []
    let (n, lost) := absorb n places
    (scaled n (dropped.length + lost.length - places.length + m.exponentValue)).map signed

/-- Reads a number. -/
def number (cs : List Char) : Except Fault (Number × List Char) :=
  match numeral cs with
  | .error e => .error e
  | .ok (m, rest) => m.value.map fun n => (n, rest)

/-- Skips a number. One that ends too early is malformed here. -/
def skipNumber (cs : List Char) : Except Fault (List Char) :=
  match numeral cs with
  | .error _ => .error .malformed
  | .ok (_, rest) => .ok rest

/-! ## What is read is not empty -/

theorem digits_length {cs ds rest : List Char} (h : digits cs = .ok (ds, rest)) :
    rest.length < cs.length := by
  unfold digits at h
  have hcs := List.takeWhile_append_dropWhile (p := Char.isDigit) (l := cs)
  split at h
  · cases h
  · cases h
  · rename_i hnil hcons
    cases h
    have hlen := congrArg List.length hcs
    rw [List.length_append] at hlen
    cases hd : cs.takeWhile Char.isDigit with
    | nil =>
      cases hr : cs.dropWhile Char.isDigit with
      | nil => exact absurd hr (hnil hd)
      | cons c r => exact absurd hr (hcons c r hd)
    | cons d ds =>
      rw [hd, List.length_cons] at hlen
      omega

theorem wholeDigits_length {cs ds rest : List Char} (h : wholeDigits cs = .ok (ds, rest)) :
    rest.length < cs.length := by
  unfold wholeDigits at h
  split at h
  · cases h
  · cases h
  · rename_i hd
    cases h
    exact digits_length hd

theorem point_length {cs rest : List Char} {ds : Option (List Char)}
    (h : point cs = .ok (ds, rest)) : rest.length ≤ cs.length := by
  unfold point at h
  split at h
  · rename_i tail
    cases hd : digits tail with
    | error e => simp [hd, Except.map] at h
    | ok p =>
      simp only [hd, Except.map, Except.ok.injEq, Prod.mk.injEq] at h
      have := digits_length hd
      simp only [List.length_cons, ← h.2]
      omega
  · cases h
    exact Nat.le_refl _

theorem exponent_length {cs rest : List Char} {e : Option (Bool × List Char)}
    (h : exponent cs = .ok (e, rest)) : rest.length ≤ cs.length := by
  have key {α : Type} (f : List Char → α) (tail : List Char) (a : α)
      (ht : (digits tail).map (fun p => (f p.1, p.2)) = .ok (a, rest)) :
      rest.length < tail.length := by
    cases hd : digits tail with
    | error e => simp [hd, Except.map] at ht
    | ok p =>
      simp only [hd, Except.map, Except.ok.injEq, Prod.mk.injEq] at ht
      exact ht.2 ▸ digits_length hd
  unfold exponent at h
  split at h
  · cases h
    exact Nat.le_refl _
  · simp only [List.length_cons]
    split at h
    · split at h
      · have := key (fun ds => some (true, ds)) _ _ h
        simp only [List.length_cons]
        omega
      · have := key (fun ds => some (false, ds)) _ _ h
        simp only [List.length_cons]
        omega
      · have := key (fun ds => some (false, ds)) _ _ h
        omega
    · cases h
      simp

theorem numeral_length {cs rest : List Char} {m : Numeral} (h : numeral cs = .ok (m, rest)) :
    rest.length < cs.length := by
  have key (negative : Bool) (tail : List Char) (ht : unsigned negative tail = .ok (m, rest)) :
      rest.length < tail.length := by
    unfold unsigned at ht
    split at ht
    · cases ht
    · rename_i hw
      have := wholeDigits_length hw
      split at ht
      · cases ht
      · rename_i afterPoint hp
        have := point_length hp
        cases he : exponent afterPoint with
        | error e => simp [he, Except.map] at ht
        | ok p =>
          simp only [he, Except.map, Except.ok.injEq, Prod.mk.injEq] at ht
          obtain ⟨e, tail'⟩ := p
          have := exponent_length he
          simp only at ht
          rw [← ht.2]
          omega
  unfold numeral at h
  split at h
  · have := key _ _ h
    simp only [List.length_cons]
    omega
  · exact key _ _ h

theorem number_length {cs rest : List Char} {n : Number} (h : number cs = .ok (n, rest)) :
    rest.length < cs.length := by
  unfold number at h
  split at h
  · cases h
  · rename_i m tail hm
    cases hv : m.value with
    | error e => simp [hv, Except.map] at h
    | ok v =>
      simp only [hv, Except.map, Except.ok.injEq, Prod.mk.injEq] at h
      exact h.2 ▸ numeral_length hm

theorem skipNumber_length {cs rest : List Char} (h : skipNumber cs = .ok rest) :
    rest.length < cs.length := by
  unfold skipNumber at h
  split at h
  · cases h
  · rename_i hm
    cases h
    exact numeral_length hm

end OffsideBench.Json
