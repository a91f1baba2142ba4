import Mathlib.Data.List.TakeWhile
import OffsideBench.Proofs.Digits

/-!
# Printed numbers read back

`Binary64.nearest` depends on its quotient only and gives a magnitude back from its units, so all
decimals of one value round alike, and the exact decimal of a magnitude rounds to it. Whatever
`Decimal.shortest` finds was tested to do so. Positional notation keeps the value of a decimal, so
reading the text of a number gives the number.

Main statement: `Binary64.parse?_text`.
-/

namespace OffsideBench

namespace Binary64

/-! ## Rounding -/

theorem roundEven_mul_right (num den : Nat) {k : Nat} (hk : 0 < k) :
    roundEven (num * k) (den * k) = roundEven num den := by
  have hmod : 2 * (num % den * k) = 2 * (num % den) * k := by rw [Nat.mul_assoc]
  unfold roundEven
  simp only [Nat.mul_div_mul_right _ _ hk, Nat.mul_mod_mul_right, hmod, Nat.mul_lt_mul_right hk]

theorem nearest_mul_right (num den : Nat) {k : Nat} (hk : 0 < k) :
    nearest (num * k) (den * k) = nearest num den := by
  have hden : ∀ p, den * k * p = den * p * k := fun p => Nat.mul_right_comm den k p
  unfold nearest
  simp only [Nat.mul_div_mul_right _ _ hk, hden, roundEven_mul_right _ _ hk]

/-- Rounding depends on the quotient only. -/
theorem nearest_congr {num den num' den' : Nat} (hden : 0 < den) (hden' : 0 < den')
    (h : num * den' = num' * den) : nearest num den = nearest num' den' := by
  rw [← nearest_mul_right num den hden', ← nearest_mul_right num' den' hden, h,
    Nat.mul_comm den den']

theorem roundEven_mul_self (n : Nat) {k : Nat} (hk : 0 < k) : roundEven (n * k) k = n := by
  unfold roundEven
  simp only [Nat.mul_div_cancel _ hk, Nat.mul_mod_left]
  exact if_pos hk

theorem log2_mul_pow {c s : Nat} (hlow : fractions ≤ c) (hhigh : c < 2 * fractions) :
    Nat.log2 (c * 2 ^ s) = 52 + s := by
  have hfractions : fractions = 2 ^ 52 := rfl
  have hpos : 0 < 2 ^ s := Nat.two_pow_pos s
  refine (Nat.log2_eq_iff (Nat.mul_pos (by omega) hpos).ne').2 ⟨?_, ?_⟩
  · rw [Nat.pow_add]
    exact Nat.mul_le_mul_right _ (by omega)
  · rw [Nat.add_right_comm, Nat.pow_add]
    exact Nat.mul_lt_mul_of_pos_right (by omega) hpos

/-- A finite magnitude is the one nearest to its units. -/
theorem nearest_units {m : Nat} (hm : m < infinite) : nearest (units m) 1 = m := by
  unfold units
  split
  · rename_i hlow
    -- below 2^52 units no bit is shifted out
    have hfractions : fractions < 2 ^ 53 := by decide
    have hshift : Nat.log2 m - 52 = 0 := by
      by_cases h0 : m = 0
      · rw [h0]
        rfl
      · have hlog := (Nat.log2_lt h0).2 (hlow.trans hfractions)
        omega
    have hround : roundEven m 1 = m := by simpa using roundEven_mul_self m Nat.one_pos
    unfold nearest
    rw [Nat.div_one, hshift]
    show min infinite (0 * fractions + roundEven m 1) = m
    rw [hround, Nat.zero_mul, Nat.zero_add]
    exact min_eq_right hm.le
  · rename_i hhigh
    have hpos : 0 < fractions := by decide
    obtain ⟨s, hs⟩ := Nat.exists_eq_add_of_le' (Nat.div_pos (Nat.not_lt.1 hhigh) hpos)
    have hfraction : m % fractions < fractions := Nat.mod_lt m hpos
    have hlog : Nat.log2 ((fractions + m % fractions) * Nat.pow 2 s) = 52 + s :=
      log2_mul_pow (Nat.le_add_right _ _) (by omega)
    have hback : s * fractions + (fractions + m % fractions) = m := by
      have hsplit := Nat.div_add_mod' m fractions
      rw [hs, Nat.succ_mul] at hsplit
      omega
    unfold nearest
    rw [hs, Nat.add_sub_cancel, Nat.div_one, hlog, Nat.add_sub_cancel_left]
    have hround := roundEven_mul_self (fractions + m % fractions) (Nat.two_pow_pos s)
    show min infinite (s * fractions + roundEven _ (1 * 2 ^ s)) = m
    rw [Nat.one_mul]
    show min infinite (s * fractions + roundEven (_ * 2 ^ s) (2 ^ s)) = m
    rw [hround, hback]
    exact min_eq_right hm.le

end Binary64

namespace Decimal

open Binary64

/-! ## Decimals of one value -/

theorem length_toDigits_mul_pow {c : Nat} (hc : c ≠ 0) (k : Nat) :
    (Nat.toDigits 10 (c * 10 ^ k)).length = (Nat.toDigits 10 c).length + k := by
  have hlt : ∀ {n l : Nat}, 0 < l → ((Nat.toDigits 10 n).length ≤ l ↔ n < 10 ^ l) := fun hl =>
    Nat.length_toDigits_le_iff (by decide) hl
  have hpos : 0 < (Nat.toDigits 10 c).length := Nat.length_toDigits_pos
  have hpow : 0 < 10 ^ k := Nat.pow_pos (by decide)
  refine Nat.le_antisymm ?_ (Nat.not_lt.1 fun h => ?_)
  · rw [hlt (by omega), Nat.pow_add]
    exact Nat.mul_lt_mul_of_pos_right ((hlt hpos).1 (Nat.le_refl _)) hpow
  · have hshort : c * 10 ^ k < 10 ^ ((Nat.toDigits 10 c).length - 1 + k) := by
      by_cases h0 : (Nat.toDigits 10 c).length - 1 + k = 0
      · have hlong := Nat.length_toDigits_pos (b := 10) (n := c * 10 ^ k)
        omega
      · exact (hlt (Nat.pos_of_ne_zero h0)).1 (by omega)
    rw [Nat.pow_add] at hshort
    have hless : c < 10 ^ ((Nat.toDigits 10 c).length - 1) := Nat.lt_of_mul_lt_mul_right hshort
    by_cases h1 : (Nat.toDigits 10 c).length - 1 = 0
    · rw [h1] at hless
      omega
    · have hlength := (hlt (Nat.pos_of_ne_zero h1)).2 hless
      omega

theorem magnitude_zero (e : Int) : magnitude ⟨0, e⟩ = 0 := if_pos rfl

/-- Zeros at the end of the coefficient count for the exponent. -/
theorem magnitude_mul_pow (c k : Nat) (e : Int) :
    magnitude ⟨c * 10 ^ k, e⟩ = magnitude ⟨c, e + k⟩ := by
  have hpow : 0 < 10 ^ k := Nat.pow_pos (by decide)
  by_cases hc : c = 0
  · subst hc
    rw [Nat.zero_mul, magnitude_zero, magnitude_zero]
  · have hck : c * 10 ^ k ≠ 0 := (Nat.mul_pos (Nat.pos_of_ne_zero hc) hpow).ne'
    have hleading : ((Nat.toDigits 10 (c * 10 ^ k)).length : Int) + e =
        (Nat.toDigits 10 c).length + (e + k) := by
      rw [length_toDigits_mul_pow hc]
      push_cast
      omega
    have hnearest : nearest (num ⟨c * 10 ^ k, e⟩) (den ⟨c * 10 ^ k, e⟩) =
        nearest (num ⟨c, e + k⟩) (den ⟨c, e + k⟩) := by
      refine nearest_congr (Nat.pow_pos (by decide)) (Nat.pow_pos (by decide)) ?_
      have hexponents : k + e.toNat + (-(e + k)).toNat = (e + k).toNat + (-e).toNat := by omega
      have hpowers : 10 ^ k * 10 ^ e.toNat * 10 ^ (-(e + k)).toNat =
          10 ^ (e + k).toNat * 10 ^ (-e).toNat := by
        rw [← Nat.pow_add, ← Nat.pow_add, ← Nat.pow_add, hexponents]
      show c * 10 ^ k * 10 ^ e.toNat * one * 10 ^ (-(e + k)).toNat =
        c * 10 ^ (e + k).toNat * one * 10 ^ (-e).toNat
      generalize one = u
      calc c * 10 ^ k * 10 ^ e.toNat * u * 10 ^ (-(e + k)).toNat
          = c * (10 ^ k * 10 ^ e.toNat * 10 ^ (-(e + k)).toNat) * u := by ac_rfl
        _ = c * (10 ^ (e + k).toNat * 10 ^ (-e).toNat) * u := by rw [hpowers]
        _ = c * 10 ^ (e + k).toNat * u * 10 ^ (-e).toNat := by ac_rfl
    unfold magnitude digits
    simp only [if_neg hc, if_neg hck, hleading, hnearest]

/-! ## The exact decimal of a magnitude -/

theorem units_lt {m p : Nat} (hm : m < infinite) (hp : 2045 ≤ p) :
    units m < 2 * fractions * 2 ^ p := by
  have hpos : 0 < fractions := by decide
  unfold units
  split
  · rename_i hlow
    calc m < fractions := hlow
      _ ≤ 2 * fractions := Nat.le_mul_of_pos_left _ Nat.two_pos
      _ ≤ 2 * fractions * 2 ^ p := Nat.le_mul_of_pos_right _ (Nat.two_pow_pos p)
  · have hexponent : m / fractions < 2047 := (Nat.div_lt_iff_lt_mul hpos).2 hm
    have hfraction : m % fractions < fractions := Nat.mod_lt m hpos
    calc (fractions + m % fractions) * 2 ^ (m / fractions - 1)
        < 2 * fractions * 2 ^ (m / fractions - 1) :=
          Nat.mul_lt_mul_of_pos_right (by omega) (Nat.two_pow_pos _)
      _ ≤ 2 * fractions * 2 ^ p :=
          Nat.mul_le_mul_left _ (Nat.pow_le_pow_right Nat.two_pos (by omega))

theorem units_pos {m : Nat} (hpos : m ≠ 0) : 0 < units m := by
  unfold units
  split
  · exact Nat.pos_of_ne_zero hpos
  · exact Nat.mul_pos (Nat.add_pos_left (by decide) _) (Nat.two_pow_pos _)

theorem magnitude_of_length {d : Decimal} (hc : d.coefficient ≠ 0)
    (hlow : -330 ≤ d.digits.length + d.exponent) (hhigh : d.digits.length + d.exponent ≤ 310) :
    d.magnitude = nearest d.num d.den := by
  unfold magnitude
  rw [if_neg hc, if_neg (Int.not_lt.2 hhigh), if_neg (Int.not_lt.2 hlow)]

/-- A number of units is a decimal: a unit is a power of five many times a power of a tenth. -/
theorem nearest_units_decimal {p : Nat} (hone : one = 2 ^ p) (units : Nat) :
    nearest (num ⟨units * 5 ^ p, -p⟩) (den ⟨units * 5 ^ p, -p⟩) = nearest units 1 := by
  refine nearest_congr (Nat.pow_pos (by decide)) Nat.one_pos ?_
  have hnum : (-(p : Int)).toNat = 0 := by omega
  have hden : (-(-(p : Int))).toNat = p := by omega
  show units * 5 ^ p * 10 ^ (-(p : Int)).toNat * one * 1 = units * 10 ^ (-(-(p : Int))).toNat
  rw [hnum, hden, hone, Nat.pow_zero, Nat.mul_one, Nat.mul_one, Nat.mul_assoc, ← Nat.mul_pow]

theorem length_toDigits_of_bounds {c low high : Nat} (hlow : 10 ^ low ≤ c) (hhigh : c < 10 ^ high) :
    low < (Nat.toDigits 10 c).length ∧ (Nat.toDigits 10 c).length ≤ high := by
  have hpos : 0 < (Nat.toDigits 10 c).length := Nat.length_toDigits_pos
  constructor
  · by_contra hshort
    have hlt := (Nat.length_toDigits_le_iff (by decide) (by omega)).1 (Nat.not_lt.1 hshort)
    exact absurd hlt (Nat.not_lt.2 hlow)
  · have hlt : low < high := (Nat.pow_lt_pow_iff_right (by decide)).1 (hlow.trans_lt hhigh)
    exact (Nat.length_toDigits_le_iff (by decide) (by omega)).2 hhigh

/-- The exponents by which the exact decimals of magnitudes are bounded. They are stated to exist, so
that a proof that uses them computes no powers of them. -/
theorem exists_exponents : ∃ p q low high : Nat, one = 2 ^ p ∧ (p : Int) = 1074 ∧ 2045 ≤ q ∧
    10 ^ low ≤ 5 ^ p ∧ 2 * fractions * 2 ^ q * 5 ^ p ≤ 10 ^ high ∧ -330 ≤ (low : Int) + -p ∧
      (high : Int) + -p ≤ 310 :=
  ⟨1074, 2045, 750, 1384, by decide +kernel, rfl, by decide, by decide +kernel, by decide +kernel,
    by decide, by decide⟩

/-- The exact decimal of a magnitude rounds to it. -/
theorem magnitude_ofUnits {m : Nat} (hpos : m ≠ 0) (hm : m < infinite) :
    (ofUnits (units m)).magnitude = m := by
  obtain ⟨p, q, low, high, hone, hp, hq, hfive, hlimit, hlowest, hhighest⟩ := exists_exponents
  have hexact : ofUnits (units m) = ⟨units m * 5 ^ p, -p⟩ := by
    have hnat : p = 1074 := Int.ofNat.inj hp
    rw [ofUnits, ← hnat, hp]
    rfl
  have hlow : 10 ^ low ≤ units m * 5 ^ p :=
    hfive.trans (Nat.le_mul_of_pos_left _ (units_pos hpos))
  have hhigh : units m * 5 ^ p < 10 ^ high :=
    (Nat.mul_lt_mul_of_pos_right (units_lt hm hq) (Nat.pow_pos (by decide))).trans_le hlimit
  obtain ⟨hlong, hshort⟩ := length_toDigits_of_bounds hlow hhigh
  have hcoefficient : units m * 5 ^ p ≠ 0 :=
    (Nat.mul_pos (units_pos hpos) (Nat.pow_pos (by decide))).ne'
  rw [hexact, magnitude_of_length hcoefficient, nearest_units_decimal hone, nearest_units hm]
  · show -330 ≤ ((Nat.toDigits 10 (units m * 5 ^ p)).length : Int) + -p
    omega
  · show ((Nat.toDigits 10 (units m * 5 ^ p)).length : Int) + -p ≤ 310
    omega

theorem magnitude_shortest (tie : Tie) {m : Nat} (hpos : m ≠ 0) (hm : m < infinite) :
    (shortest tie m).magnitude = m := by
  unfold shortest
  -- a decimal that the search finds was tested; without one the exact decimal is taken
  cases hfound : (List.range 17).findSome? fun n => withDigits? tie m (n + 1) with
  | none => exact magnitude_ofUnits hpos hm
  | some d =>
    obtain ⟨n, -, hd⟩ := List.exists_of_findSome?_eq_some hfound
    simpa using List.find?_some hd

/-! ## Positional notation -/

/-- A text of digits and points that starts with a digit. -/
def IsPlain (cs : List Char) : Prop :=
  ∃ c rest, cs = c :: rest ∧ c.isDigit = true ∧ ∀ c ∈ rest, c.isDigit = true ∨ c = '.'

theorem IsPlain.isDigit_or_point {cs : List Char} (h : IsPlain cs) :
    ∀ c ∈ cs, c.isDigit = true ∨ c = '.' := by
  obtain ⟨c, rest, rfl, hc, hrest⟩ := h
  exact List.forall_mem_cons.2 ⟨.inl hc, hrest⟩

theorem digits_ne_nil (n : Nat) : Nat.toDigits 10 n ≠ [] :=
  List.ne_nil_of_length_pos Nat.length_toDigits_pos

theorem isPlain_of_digits {whole : List Char} (hne : whole ≠ [])
    (hwhole : ∀ c ∈ whole, c.isDigit = true) : IsPlain whole := by
  obtain ⟨c, rest, rfl⟩ := List.exists_cons_of_ne_nil hne
  obtain ⟨hc, hrest⟩ := List.forall_mem_cons.1 hwhole
  exact ⟨c, rest, rfl, hc, fun c hc => .inl (hrest c hc)⟩

theorem IsPlain.point {whole places : List Char} (hne : whole ≠ [])
    (hwhole : ∀ c ∈ whole, c.isDigit = true) (hplaces : ∀ c ∈ places, c.isDigit = true) :
    IsPlain (whole ++ '.' :: places) := by
  obtain ⟨c, rest, rfl⟩ := List.exists_cons_of_ne_nil hne
  obtain ⟨hc, hrest⟩ := List.forall_mem_cons.1 hwhole
  refine ⟨c, rest ++ '.' :: places, rfl, hc, ?_⟩
  intro c hmem
  rcases List.mem_append.1 hmem with hmem | hmem
  · exact .inl (hrest c hmem)
  · rcases List.mem_cons.1 hmem with rfl | hmem
    · exact .inr rfl
    · exact .inl (hplaces c hmem)

theorem parse?_digits {whole : List Char} (hne : whole ≠ [])
    (hwhole : ∀ c ∈ whole, c.isDigit = true) : parse? whole = some ⟨digitsValue whole, 0⟩ := by
  have htake : whole.takeWhile Char.isDigit = whole := List.takeWhile_eq_self_iff.2 hwhole
  have hdrop : whole.dropWhile Char.isDigit = [] := List.dropWhile_eq_nil_iff.2 hwhole
  unfold parse?
  simp only [htake, hdrop, List.append_nil, if_neg hne]
  rfl

theorem parse?_point {whole places : List Char} (hne : whole ≠ [])
    (hwhole : ∀ c ∈ whole, c.isDigit = true) (hplaces : ∀ c ∈ places, c.isDigit = true) :
    parse? (whole ++ '.' :: places) = some ⟨digitsValue (whole ++ places), -places.length⟩ := by
  have hpoint : ('.' : Char).isDigit = false := rfl
  have htake : (whole ++ '.' :: places).takeWhile Char.isDigit = whole := by
    rw [List.takeWhile_append_of_pos hwhole, List.takeWhile_cons_of_neg (by simp [hpoint]),
      List.append_nil]
  have hdrop : (whole ++ '.' :: places).dropWhile Char.isDigit = '.' :: places := by
    rw [List.dropWhile_append_of_pos hwhole, List.dropWhile_cons_of_neg (by simp [hpoint])]
  have htake' : places.takeWhile Char.isDigit = places := List.takeWhile_eq_self_iff.2 hplaces
  have hdrop' : places.dropWhile Char.isDigit = [] := List.dropWhile_eq_nil_iff.2 hplaces
  have hrow : whole ++ places ≠ [] := List.append_ne_nil_of_left_ne_nil hne places
  unfold parse?
  simp only [htake, hdrop, htake', hdrop', if_neg hrow, exponent?, Option.map_some, Int.zero_sub]

/-- Positional notation is a plain text that reads as a decimal of the same value. -/
theorem positional_reads (d : Decimal) : IsPlain d.positional ∧
    ∃ d', parse? d.positional = some d' ∧ d'.magnitude = d.magnitude := by
  have hdigits : ∀ c ∈ d.digits, c.isDigit = true := fun c => isDigit_of_mem_toDigits
  have hvalue : digitsValue d.digits = d.coefficient := digitsValue_toDigits _
  unfold positional
  by_cases he : 0 ≤ d.exponent
  · have hne : d.digits ++ List.replicate d.exponent.toNat '0' ≠ [] :=
      List.append_ne_nil_of_left_ne_nil (digits_ne_nil _) _
    have hrow : ∀ c ∈ d.digits ++ List.replicate d.exponent.toNat '0', c.isDigit = true := by
      intro c hc
      rcases List.mem_append.1 hc with hc | hc
      · exact hdigits c hc
      · exact isDigit_of_mem_zeros hc
    simp only [if_pos he]
    refine ⟨isPlain_of_digits hne hrow, _, parse?_digits hne hrow, ?_⟩
    rw [digitsValue_append_zeros, hvalue, magnitude_mul_pow, Int.zero_add, Int.toNat_of_nonneg he]
  · generalize hplaces : (-d.exponent).toNat = places
    generalize hpadded : List.replicate (places + 1 - d.digits.length) '0' ++ d.digits = padded
    have hlength : places < padded.length := by
      rw [← hpadded, List.length_append, List.length_replicate]
      omega
    have hrow : ∀ c ∈ padded, c.isDigit = true := by
      rw [← hpadded]
      intro c hc
      rcases List.mem_append.1 hc with hc | hc
      · exact isDigit_of_mem_zeros hc
      · exact hdigits c hc
    have hwhole : padded.take (padded.length - places) ≠ [] := by
      refine List.ne_nil_of_length_pos ?_
      rw [List.length_take]
      omega
    have htake : ∀ c ∈ padded.take (padded.length - places), c.isDigit = true :=
      fun c hc => hrow c (List.mem_of_mem_take hc)
    have hdrop : ∀ c ∈ padded.drop (padded.length - places), c.isDigit = true :=
      fun c hc => hrow c (List.mem_of_mem_drop hc)
    simp only [if_neg he, hpadded]
    refine ⟨.point hwhole htake hdrop, d, ?_, rfl⟩
    have hexponent : -((padded.drop (padded.length - places)).length : Int) = d.exponent := by
      rw [List.length_drop]
      omega
    rw [parse?_point hwhole htake hdrop, List.take_append_drop, hexponent, ← hpadded,
      digitsValue_zeros_append, hvalue]

end Decimal

namespace Binary64

open Decimal

/-! ## Numbers -/

theorem toLower_of_isDigit {c : Char} (h : c.isDigit = true) : c.toLower = c := by
  have h9 : c.toNat ≤ 57 := (Char.isDigit_iff_toNat.1 h).2
  refine dif_neg ?_
  rintro ⟨hA, -⟩
  have h65 : 65 ≤ c.toNat := hA
  omega

/-- A plain text names neither an infinity nor what is no number. -/
theorem parseMagnitude?_of_isPlain {cs : List Char} (h : IsPlain cs) :
    parseMagnitude? cs = (Decimal.parse? cs).map Decimal.magnitude := by
  obtain ⟨c, rest, rfl, hc, -⟩ := h
  have hword : ∀ d ds, d.isDigit = false →
      String.ofList ((c :: rest).map Char.toLower) ≠ String.ofList (d :: ds) := by
    intro d ds hd hsame
    have hhead := (List.cons.inj (String.ofList_inj.1 hsame)).1
    rw [toLower_of_isDigit hc] at hhead
    rw [← hhead, hc] at hd
    cases hd
  have hinf := hword 'i' ['n', 'f'] rfl
  have hinfinity := hword 'i' ['n', 'f', 'i', 'n', 'i', 't', 'y'] rfl
  have hnan := hword 'n' ['a', 'n'] rfl
  unfold parseMagnitude?
  exact (if_neg (not_or.2 ⟨hinf, hinfinity⟩)).trans (if_neg hnan)

/-- A plain text has no sign. -/
theorem parse?_of_isPlain {cs : List Char} (h : IsPlain cs) :
    parse? (String.ofList cs) = (parseMagnitude? cs).map (ofMagnitude false) := by
  obtain ⟨c, rest, rfl, hc, -⟩ := h
  unfold parse?
  rw [String.toList_ofList]
  split
  · rename_i hcs
    rw [(List.cons.inj hcs).1] at hc
    cases hc
  · rename_i hcs
    rw [(List.cons.inj hcs).1] at hc
    cases hc
  · rfl

theorem ofMagnitude_magnitude {x : Binary64} (hsign : x.negative = false) :
    ofMagnitude false x.magnitude = x := by
  have hlt : x.bits.toNat < magnitudes := Nat.not_le.1 (of_decide_eq_false hsign)
  have hmagnitude : x.magnitude = x.bits.toNat := Nat.mod_eq_of_lt hlt
  unfold ofMagnitude
  rw [hmagnitude]
  show (⟨(0 + x.bits.toNat).toUInt64⟩ : Binary64) = x
  rw [Nat.zero_add]
  exact congrArg Binary64.mk x.bits.ofNat_toNat

/-- The digits of a finite magnitude. -/
theorem text_of_finite {x : Binary64} (hfinite : x.isFinite = true) (hsign : x.negative = false) :
    ∃ d : Decimal, x.text = String.ofList d.positional ∧ d.magnitude = x.magnitude := by
  have hlt : x.magnitude < infinite := of_decide_eq_true hfinite
  have hsigned : ∀ cs, x.signed cs = String.ofList cs := by
    intro cs
    unfold signed
    rw [hsign]
    rfl
  have hundefined : x.isUndefined = false := decide_eq_false (Nat.lt_asymm hlt)
  have hinfinite : x.isInfinite = false := beq_eq_false_iff_ne.2 hlt.ne
  unfold text
  rw [hundefined, hinfinite]
  by_cases h0 : x.magnitude = 0
  · refine ⟨⟨0, 0⟩, ?_, (magnitude_zero 0).trans h0.symm⟩
    rw [if_neg Bool.false_ne_true, if_neg Bool.false_ne_true, if_pos h0, hsigned]
    rfl
  · refine ⟨shortest .up x.magnitude, ?_, magnitude_shortest .up h0 hlt⟩
    rw [if_neg Bool.false_ne_true, if_neg Bool.false_ne_true, if_neg h0, hsigned]

/-- A finite number without a sign is printed as a plain text, which reads back as the number. -/
theorem parse?_text {x : Binary64} (hfinite : x.isFinite = true) (hsign : x.negative = false) :
    IsPlain x.text.toList ∧ parse? x.text = some x := by
  obtain ⟨d, htext, hmagnitude⟩ := text_of_finite hfinite hsign
  obtain ⟨hplain, d', hparse, hsame⟩ := positional_reads d
  rw [htext, String.toList_ofList, parse?_of_isPlain hplain, parseMagnitude?_of_isPlain hplain,
    hparse, Option.map_some, Option.map_some, hsame, hmagnitude, ofMagnitude_magnitude hsign]
  exact ⟨hplain, rfl⟩

end Binary64

end OffsideBench
