import OffsideBench.Random.ChaCha

/-!
# Dice

What a random process may ask for: a number below a bound, drawn from 32-bit or from 64-bit words,
and a coin. A process that is written for any dice has its properties for every outcome of its
draws, since the type of a draw keeps it below its bound.

`Dice.ofGenerator` rolls with a generator of random words. A word `v` yields the high half of the
product `v * n`; words whose product has a low half above the largest multiple of `n` that fits are
refused, so that all numbers below `n` are equally likely.
-/

namespace OffsideBench.Random

/-- A source of random decisions with states of type `σ`. -/
structure Dice (σ : Type) where
  /-- A number below a bound, drawn from 32-bit words. -/
  below : (n : Nat) → 0 < n → StateM σ (Fin n)
  /-- A number below a bound, drawn from 64-bit words. -/
  belowWide : (n : Nat) → 0 < n → StateM σ (Fin n)
  /-- A coin. -/
  coin : StateM σ Bool

/-- Draws a member of a list that is not empty. -/
def Dice.choose {σ α : Type} (dice : Dice σ) (xs : List α) (h : xs ≠ []) : StateM σ α :=
  return xs.get (← dice.below xs.length (List.length_pos_iff.2 h))

/-- How many words in a row may be refused. Each is accepted with probability at least one half, so
that this many are never refused in practice. -/
def refusals : Nat := 4096

/-- The largest low half that is accepted for the bound `n` and words of `bits` bits. -/
def zone (bits n : Nat) : Nat := n * Nat.pow 2 (bits - 1 - Nat.log2 n) - 1

/-- The number below `n` that the word `v` of `bits` bits yields. -/
def scaleDown (bits v n : Nat) : Nat := v * n / Nat.pow 2 bits

theorem scaleDown_lt {bits v n : Nat} (hv : v < Nat.pow 2 bits) (hn : 0 < n) :
    scaleDown bits v n < n :=
  Nat.div_lt_of_lt_mul (Nat.mul_lt_mul_of_pos_right hv hn)

/-- Draws words of `bits` bits until one is accepted for the bound `n`. -/
def draw {σ : Type} (bits : Nat) (word : StateM σ (Fin (Nat.pow 2 bits))) (n : Nat) (hn : 0 < n) :
    Nat → StateM σ (Fin n)
  | 0 => do
    let v ← word
    return ⟨scaleDown bits v n, scaleDown_lt v.isLt hn⟩
  | tries + 1 => do
    let v ← word
    if v * n % Nat.pow 2 bits ≤ zone bits n then
      return ⟨scaleDown bits v n, scaleDown_lt v.isLt hn⟩
    else
      draw bits word n hn tries

/-- Dice that roll with a generator of random words. -/
def Dice.ofGenerator : Dice Generator where
  below n hn :=
    draw 32 (fun g => let (w, g) := g.next32; (⟨w.toNat, w.toNat_lt⟩, g)) n hn refusals
  belowWide n hn :=
    draw 64 (fun g => let (w, g) := g.next64; (⟨w.toNat, w.toNat_lt⟩, g)) n hn refusals
  coin g := let (w, g) := g.next64; (decide (w < 0x8000000000000000), g)

end OffsideBench.Random
