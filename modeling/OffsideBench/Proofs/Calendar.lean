import Mathlib.Tactic.IntervalCases
import OffsideBench.Calendar
import OffsideBench.Proofs.Digits

/-!
# The calendar is the Gregorian one

The Gregorian calendar is stated by the lengths of its years and months; days are counted by adding
these up. The calendar of `Instant.ofSeconds` counts years from March and takes eras of 400 years,
and comes to the same dates. On the way no number leaves the range of 64-bit words, and none falls
below zero: `Instant.ofSeconds?` is the same calculation with a check of each step.

Dates of the calendar are in the order of their seconds, and their texts are in the order of the
dates as long as the years have four digits.

Main statement: `Instant.timestamps_are_gregorian`.
-/

namespace OffsideBench

/-! ## The Gregorian calendar -/

namespace Gregorian

/-- Every fourth year has a leap day, but of the years that end a century only every fourth. -/
def isLeap (year : Nat) : Bool := year % 4 == 0 && (year % 100 != 0 || year % 400 == 0)

def yearLength (year : Nat) : Nat := if isLeap year then 366 else 365

/-- The days of a month, counted from January. -/
def monthLength (year : Nat) : Nat → Nat
  | 2 => if isLeap year then 29 else 28
  | 4 | 6 | 9 | 11 => 30
  | _ => 31

/-- The days from the start of 1970 to the start of a year that is no earlier. -/
def daysToYear (year : Nat) : Nat := ((List.range' 1970 (year - 1970)).map yearLength).sum

/-- The days of a year in front of one of its months. -/
def daysToMonth (year month : Nat) : Nat := ((List.range' 1 (month - 1)).map (monthLength year)).sum

/-- The number of leap years from the year one on up to a year. -/
def leapYears (year : Nat) : Nat := year / 4 - year / 100 + year / 400

variable {year : Nat}

theorem yearLength_eq (year : Nat) :
    yearLength year = 365 + if isLeap year then 1 else 0 := by
  unfold yearLength
  split <;> rfl

theorem isLeap_iff : isLeap year = true ↔ year % 4 = 0 ∧ (year % 100 ≠ 0 ∨ year % 400 = 0) := by
  simp [isLeap]

theorem leapYears_succ (year : Nat) :
    leapYears (year + 1) = leapYears year + if isLeap (year + 1) then 1 else 0 := by
  have hrow : (year + 1) / 4 = year / 4 + if (year + 1) % 4 = 0 then 1 else 0 := by
    split <;> omega
  have hcentury : (year + 1) / 100 = year / 100 + if (year + 1) % 100 = 0 then 1 else 0 := by
    split <;> omega
  have hera : (year + 1) / 400 = year / 400 + if (year + 1) % 400 = 0 then 1 else 0 := by
    split <;> omega
  have hfew : year / 100 ≤ year / 4 := by omega
  rw [leapYears, leapYears, hrow, hcentury, hera]
  generalize year / 4 = rows, year / 100 = centuries, year / 400 = eras at hfew
  simp only [isLeap_iff]
  split_ifs <;> omega

/-- Eras of 400 years have 97 leap years each. -/
theorem leapYears_era (era y : Nat) : leapYears (400 * era + y) = 97 * era + leapYears y := by
  unfold leapYears
  omega

theorem isLeap_era (era y : Nat) : isLeap (400 * era + y) = isLeap y := by
  rw [Bool.eq_iff_iff, isLeap_iff, isLeap_iff]
  omega

theorem daysToYear_succ (n : Nat) :
    daysToYear (1970 + (n + 1)) = daysToYear (1970 + n) + yearLength (1970 + n) := by
  rw [daysToYear, daysToYear, Nat.add_sub_cancel_left, Nat.add_sub_cancel_left, List.range'_concat,
    List.map_append, List.sum_append, Nat.one_mul]
  rfl

/-- The years since 1970 have 365 days and a leap day each fourth year, as a rule; 477 leap years
were before. -/
theorem daysToYear_eq (n : Nat) :
    daysToYear (1970 + n) + 477 = 365 * n + leapYears (1969 + n) := by
  induction n with
  | zero => rfl
  | succ n ih =>
    have hleap := leapYears_succ (1969 + n)
    rw [show 1969 + n + 1 = 1970 + n by omega] at hleap
    rw [daysToYear_succ, yearLength_eq, show 1969 + (n + 1) = 1970 + n by omega, hleap]
    omega

theorem daysToMonth_january (year : Nat) : daysToMonth year 1 = 0 := rfl

theorem daysToMonth_february (year : Nat) : daysToMonth year 2 = 31 := rfl

/-- From March on the lengths of the months follow a line. -/
theorem daysToMonth_march {m : Nat} (hm : m < 10) :
    daysToMonth year (m + 3) = 59 + (if isLeap year then 1 else 0) + (153 * m + 2) / 5 := by
  interval_cases m <;> simp [daysToMonth, List.range', monthLength] <;> split <;> rfl

theorem daysToMonth_succ (year m : Nat) :
    daysToMonth year (m + 2) = daysToMonth year (m + 1) + monthLength year (m + 1) := by
  rw [daysToMonth, daysToMonth, show m + 2 - 1 = m + 1 from rfl, show m + 1 - 1 = m from rfl,
    List.range'_concat, List.map_append, List.sum_append, Nat.one_mul, Nat.add_comm 1 m]
  rfl

theorem monotone_daysToYear : Monotone fun n => daysToYear (1970 + n) :=
  monotone_nat_of_le_succ fun n => by
    show daysToYear (1970 + n) ≤ daysToYear (1970 + (n + 1))
    rw [daysToYear_succ]
    exact Nat.le_add_right _ _

/-- A year is over before a later one begins. -/
theorem daysToYear_add_le {y z : Nat} (hy : 1970 ≤ y) (h : y < z) :
    daysToYear y + yearLength y ≤ daysToYear z := by
  obtain ⟨m, rfl⟩ := Nat.exists_eq_add_of_le hy
  obtain ⟨n, rfl⟩ := Nat.exists_eq_add_of_le (hy.trans h.le)
  rw [← daysToYear_succ]
  exact monotone_daysToYear (show m + 1 ≤ n by omega)

theorem monotone_daysToMonth (year : Nat) : Monotone fun m => daysToMonth year (m + 1) :=
  monotone_nat_of_le_succ fun m => by
    show daysToMonth year (m + 1) ≤ daysToMonth year (m + 2)
    rw [daysToMonth_succ]
    exact Nat.le_add_right _ _

theorem daysToMonth_add_le (year : Nat) {m n : Nat} (hm : 1 ≤ m) (h : m < n) :
    daysToMonth year m + monthLength year m ≤ daysToMonth year n := by
  obtain ⟨m, rfl⟩ := Nat.exists_eq_add_of_le' hm
  obtain ⟨n, rfl⟩ := Nat.exists_eq_add_of_le' (hm.trans h.le)
  rw [← daysToMonth_succ]
  exact monotone_daysToMonth year (show m + 1 ≤ n by omega)

theorem daysToMonth_thirteen (year : Nat) : daysToMonth year 13 = yearLength year := by
  simp only [daysToMonth, List.range', monthLength, yearLength, List.map_cons, List.map_nil,
    List.sum_cons, List.sum_nil]
  split <;> rfl

end Gregorian

open Gregorian

namespace Instant

variable {s t u : Instant}

/-- The days from the first of January 1970 to a date, by the lengths of years and months. -/
def daysSince1970 (t : Instant) : Nat :=
  daysToYear t.year + daysToMonth t.year t.month + (t.day - 1)

/-- The seconds from the start of 1970 to an instant. -/
def seconds (t : Instant) : Nat :=
  t.daysSince1970 * 86400 + 3600 * t.hour + 60 * t.minute + t.second

/-- A date that the calendar has, no earlier than 1970, and a time of day. -/
structure IsDate (t : Instant) : Prop where
  year : 1970 ≤ t.year
  month : 1 ≤ t.month ∧ t.month ≤ 12
  day : 1 ≤ t.day ∧ t.day ≤ monthLength t.year t.month
  hour : t.hour < 24
  minute : t.minute < 60
  second : t.second < 60

/-! ## Days of an era -/

/-- The years of an era from its centuries and its rows of four years. The day of an era is taken
apart as `36524 c + 1461 a + 365 b + k`; the last day of a row of four years is its leap day, except
at the end of a century that has none. -/
theorem yearOfEra_eq {c a b k : Nat} (hc : c < 4) (ha : a < 25) (hb : b < 4)
    (hk : k < 365 ∨ k = 365 ∧ b = 3 ∧ (a < 24 ∨ c = 3)) :
    yearOfEra (36524 * c + 1461 * a + 365 * b + k) = 100 * c + 4 * a + b := by
  generalize hd : 36524 * c + 1461 * a + 365 * b + k = d
  have hday : d = 24 * c + a + 365 * b + k + 1460 * (25 * c + a) := by omega
  have hrow : d / 1460 = (24 * c + a + 365 * b + k) / 1460 + (25 * c + a) := by
    rw [hday, Nat.add_mul_div_left _ _ (by decide)]
  have hlast : 1461 * a + 365 * b + k < 36524 ∨ 1461 * a + 365 * b + k = 36524 ∧ c = 3 := by omega
  have hcentury : d / 36524 = c + d / 146096 := by
    rcases hlast with h | ⟨h, rfl⟩ <;> omega
  unfold yearOfEra
  omega

theorem exists_yearOfEra {d : Nat} (hd : d < eraDays) :
    ∃ c a b k, c < 4 ∧ a < 25 ∧ b < 4 ∧ (k < 365 ∨ k = 365 ∧ b = 3 ∧ (a < 24 ∨ c = 3)) ∧
      d = 36524 * c + 1461 * a + 365 * b + k := by
  unfold eraDays at hd
  -- the last day of an era is a 147th leap day in a century that has one more day
  obtain ⟨c, r, hc, hr, rfl⟩ : ∃ c r, c < 4 ∧ (r < 36524 ∨ r = 36524 ∧ c = 3) ∧
      d = 36524 * c + r := ⟨min (d / 36524) 3, d - 36524 * min (d / 36524) 3, by omega⟩
  obtain ⟨b, k, hb, hk, hq⟩ : ∃ b k, b < 4 ∧ (k < 365 ∨ k = 365 ∧ b = 3) ∧
      r % 1461 = 365 * b + k :=
    ⟨min (r % 1461 / 365) 3, r % 1461 - 365 * min (r % 1461 / 365) 3, by omega⟩
  exact ⟨c, r / 1461, b, k, by omega⟩

/-- The day of an era lies in the year that is found for it. -/
theorem yearOfEra_spec {d : Nat} (hd : d < eraDays) :
    yearOfEra d < 400 ∧ daysBeforeYear (yearOfEra d) ≤ d ∧
      d - daysBeforeYear (yearOfEra d) < yearLength (yearOfEra d + 1) := by
  obtain ⟨c, a, b, k, hc, ha, hb, hk, rfl⟩ := exists_yearOfEra hd
  have hbefore : daysBeforeYear (100 * c + 4 * a + b) = 36524 * c + 1461 * a + 365 * b := by
    unfold daysBeforeYear
    omega
  have hlength : k < yearLength (100 * c + 4 * a + b + 1) := by
    unfold yearLength
    split
    · omega
    · rename_i hleap
      rw [isLeap_iff] at hleap
      omega
  rw [yearOfEra_eq hc ha hb hk, hbefore]
  refine ⟨by omega, by omega, ?_⟩
  rwa [Nat.add_sub_cancel_left]

theorem monthOfYear_spec {k : Nat} (hk : k < 366) :
    monthOfYear k < 12 ∧ daysBeforeMonth (monthOfYear k) ≤ k ∧
      k < daysBeforeMonth (monthOfYear k + 1) := by
  unfold monthOfYear daysBeforeMonth
  omega

/-! ## Dates and days -/

/-- A day in March or later lies in the calendar year that its year has the number of. -/
theorem daysToDate_of_march {y k m : Nat} (hm : m < 10) (hlow : daysBeforeMonth m ≤ k)
    (hhigh : k < daysBeforeMonth (m + 1)) (hy : 1970 ≤ y) :
    k - daysBeforeMonth m + 1 ≤ monthLength y (m + 3) ∧
      daysToYear y + daysToMonth y (m + 3) + (k - daysBeforeMonth m) + daysBefore1970 =
        365 * y + leapYears y + k := by
  obtain ⟨n, rfl⟩ := Nat.exists_eq_add_of_le hy
  have hyears := daysToYear_eq n
  have hleap := leapYears_succ (1969 + n)
  have hmonths := @daysToMonth_march (1970 + n) m hm
  have hlength : daysBeforeMonth (m + 1) = daysBeforeMonth m + monthLength (1970 + n) (m + 3) := by
    interval_cases m <;> rfl
  rw [show 1969 + n + 1 = 1970 + n by omega] at hleap
  unfold daysBefore1970
  unfold daysBeforeMonth at *
  omega

/-- A day in January or February lies in the calendar year behind. -/
theorem daysToDate_of_january {y k m : Nat} (hm : 10 ≤ m) (hm' : m < 12)
    (hlow : daysBeforeMonth m ≤ k) (hhigh : k < daysBeforeMonth (m + 1))
    (hk : k < yearLength (y + 1)) (hy : 1969 ≤ y) :
    k - daysBeforeMonth m + 1 ≤ monthLength (y + 1) (m - 9) ∧
      daysToYear (y + 1) + daysToMonth (y + 1) (m - 9) + (k - daysBeforeMonth m) + daysBefore1970 =
        365 * y + leapYears y + k := by
  obtain ⟨n, rfl⟩ := Nat.exists_eq_add_of_le hy
  have hyears := daysToYear_eq n
  rw [show 1969 + n + 1 = 1970 + n by omega] at hk ⊢
  rw [yearLength_eq] at hk
  unfold daysBefore1970
  -- February ends with the year that started in March
  obtain rfl | rfl : m = 10 ∨ m = 11 := by omega
  · have hlength : monthLength (1970 + n) 1 = 31 := rfl
    rw [show 10 - 9 = 1 from rfl, daysToMonth_january, hlength]
    unfold daysBeforeMonth at *
    omega
  · have hlength : monthLength (1970 + n) 2 = 28 + if isLeap (1970 + n) then 1 else 0 := by
      show (if isLeap (1970 + n) then 29 else 28) = _
      split <;> rfl
    rw [show 11 - 9 = 2 from rfl, daysToMonth_february, hlength]
    unfold daysBeforeMonth at *
    omega

/-- The date that is found for a day, given by its year and its place in that year, both counted
from March. -/
theorem isDate_of_march {y k : Nat} (hk : k < yearLength (y + 1))
    (hstart : daysBefore1970 ≤ 365 * y + leapYears y + k) (hmonth : t.month =
      if monthOfYear k < 10 then monthOfYear k + 3 else monthOfYear k - 9)
    (hyear : t.year = y + if t.month ≤ 2 then 1 else 0)
    (hday : t.day = k - daysBeforeMonth (monthOfYear k) + 1) :
    1970 ≤ t.year ∧ (1 ≤ t.month ∧ t.month ≤ 12) ∧
      (1 ≤ t.day ∧ t.day ≤ monthLength t.year t.month) ∧
      t.daysSince1970 + daysBefore1970 = 365 * y + leapYears y + k := by
  have hk366 : k < 366 := by
    rw [yearLength_eq] at hk
    split at hk <;> omega
  obtain ⟨hm, hlow, hhigh⟩ := monthOfYear_spec hk366
  rw [daysSince1970, hday, Nat.add_sub_cancel]
  by_cases hmarch : monthOfYear k < 10
  · rw [if_pos hmarch] at hmonth
    rw [if_neg (by omega), Nat.add_zero] at hyear
    have hy : 1970 ≤ y := by
      unfold daysBefore1970 leapYears at hstart
      unfold monthOfYear at hmarch
      omega
    obtain ⟨hlength, hdays⟩ := daysToDate_of_march hmarch hlow hhigh hy
    rw [hyear, hmonth]
    exact ⟨hy, by omega, ⟨Nat.le_add_left 1 _, hlength⟩, hdays⟩
  · rw [if_neg hmarch] at hmonth
    rw [if_pos (by omega)] at hyear
    have hy : 1969 ≤ y := by
      unfold daysBefore1970 leapYears at hstart
      omega
    obtain ⟨hlength, hdays⟩ := daysToDate_of_january (Nat.not_lt.1 hmarch) hm hlow hhigh hk hy
    rw [hyear, hmonth]
    exact ⟨by omega, by omega, ⟨Nat.le_add_left 1 _, hlength⟩, hdays⟩

/-- The calendar gives a date and time of day with the given number of seconds in front of it. -/
theorem ofSeconds_spec (s : UInt64) : (ofSeconds s).IsDate ∧ (ofSeconds s).seconds = s.toNat := by
  generalize hz : s.toNat / 86400 + daysBefore1970 = z
  generalize hd : z % eraDays = d
  obtain ⟨hyear, hlow, hhigh⟩ := yearOfEra_spec (d := d) (hd ▸ Nat.mod_lt z (by decide))
  generalize hk : d - daysBeforeYear (yearOfEra d) = k at hhigh
  -- the leap years of whole eras and of the years in this one add up to those of the year's number
  have hmarch : 365 * (400 * (z / eraDays) + yearOfEra d) +
      leapYears (400 * (z / eraDays) + yearOfEra d) + k = z := by
    have hsplit := Nat.div_add_mod z eraDays
    rw [hd] at hsplit
    rw [leapYears_era]
    unfold daysBeforeYear at hk hlow
    unfold leapYears
    unfold eraDays at hsplit ⊢
    omega
  have hlength : k < yearLength (400 * (z / eraDays) + yearOfEra d + 1) := by
    rwa [yearLength, Nat.add_assoc, isLeap_era]
  have hnumber : (ofSeconds s).year =
      400 * (z / eraDays) + yearOfEra d + if (ofSeconds s).month ≤ 2 then 1 else 0 := by
    rw [Nat.mul_comm, Nat.add_comm (_ * 400)]
    subst hd hz
    rfl
  obtain ⟨hyear, hmonth, hday, hdays⟩ := isDate_of_march (t := ofSeconds s) hlength (by omega)
    (by subst hk hd hz; rfl) hnumber (by subst hk hd hz; rfl)
  have hhour : (ofSeconds s).hour = s.toNat % 86400 / 3600 := rfl
  have hminute : (ofSeconds s).minute = s.toNat % 86400 % 3600 / 60 := rfl
  have hsecond : (ofSeconds s).second = s.toNat % 86400 % 60 := rfl
  refine ⟨⟨hyear, hmonth, hday, by omega, by omega, by omega⟩, ?_⟩
  rw [seconds]
  omega

/-! ## The calculation by words

The functions with a question mark are those of the calendar with each step checked. -/

/-- A number, if a 64-bit word can hold it. -/
def word? (n : Nat) : Option Nat := if n < UInt64.size then some n else none

/-- A difference, if it is not below zero. -/
def difference? (m n : Nat) : Option Nat := if n ≤ m then some (m - n) else none

theorem word?_of_lt {n : Nat} (h : n < UInt64.size) : word? n = some n := if_pos h

theorem difference?_of_le {m n : Nat} (h : n ≤ m) : difference? m n = some (m - n) := if_pos h

def yearOfEra? (d : Nat) : Option Nat := do
  let withoutRows ← difference? d (d / 1460)
  let withCenturies ← word? (withoutRows + d / 36524)
  let days ← difference? withCenturies (d / 146096)
  return days / 365

def dayOfYear? (d y : Nat) : Option Nat := do
  let common ← word? (365 * y)
  let withRows ← word? (common + y / 4)
  let before ← difference? withRows (y / 100)
  difference? d before

def monthOfYear? (d : Nat) : Option Nat := do
  let fifths ← word? (5 * d)
  return (← word? (fifths + 2)) / 153

def daysBeforeMonth? (m : Nat) : Option Nat := do
  let fifths ← word? (153 * m)
  return (← word? (fifths + 2)) / 5

def fromJanuary? (m : Nat) : Option Nat := if m < 10 then word? (m + 3) else difference? m 9

/-- `ofSeconds` with each step checked: there is no result if a number on the way is too large for a
64-bit word or falls below zero. -/
def ofSeconds? (seconds : UInt64) : Option Instant := do
  let days := seconds.toNat / 86400
  let rest := seconds.toNat % 86400
  let sinceMarch ← word? (days + daysBefore1970)
  let dayOfEra := sinceMarch % eraDays
  let yearOfEra ← yearOfEra? dayOfEra
  let dayOfYear ← dayOfYear? dayOfEra yearOfEra
  let monthOfYear ← monthOfYear? dayOfYear
  let dayOfMonth ← difference? dayOfYear (← daysBeforeMonth? monthOfYear)
  let day ← word? (dayOfMonth + 1)
  let month ← fromJanuary? monthOfYear
  let eraYears ← word? (sinceMarch / eraDays * 400)
  let marchYear ← word? (yearOfEra + eraYears)
  let year ← word? (marchYear + if month ≤ 2 then 1 else 0)
  return ⟨year, month, day, rest / 3600, rest % 3600 / 60, rest % 60⟩

theorem yearOfEra?_eq {d : Nat} (hd : d < eraDays) : yearOfEra? d = some (yearOfEra d) := by
  unfold eraDays at hd
  have hsize : UInt64.size = 18446744073709551616 := rfl
  rw [yearOfEra?, difference?_of_le (by omega), Option.bind_eq_bind, Option.bind_some,
    word?_of_lt (by omega), Option.bind_some, difference?_of_le (by omega)]
  rfl

theorem dayOfYear?_eq {d y : Nat} (hy : y < 400) (hd : daysBeforeYear y ≤ d) :
    dayOfYear? d y = some (d - daysBeforeYear y) := by
  have hsize : UInt64.size = 18446744073709551616 := rfl
  rw [dayOfYear?, word?_of_lt (by omega), Option.bind_eq_bind, Option.bind_some,
    word?_of_lt (by omega), Option.bind_some, difference?_of_le (by omega)]
  exact difference?_of_le hd

theorem monthOfYear?_eq {d : Nat} (hd : d < 366) : monthOfYear? d = some (monthOfYear d) := by
  have hsize : UInt64.size = 18446744073709551616 := rfl
  rw [monthOfYear?, word?_of_lt (by omega), Option.bind_eq_bind, Option.bind_some,
    word?_of_lt (by omega)]
  rfl

theorem daysBeforeMonth?_eq {m : Nat} (hm : m < 12) :
    daysBeforeMonth? m = some (daysBeforeMonth m) := by
  have hsize : UInt64.size = 18446744073709551616 := rfl
  rw [daysBeforeMonth?, word?_of_lt (by omega), Option.bind_eq_bind, Option.bind_some,
    word?_of_lt (by omega)]
  rfl

theorem fromJanuary?_eq {m : Nat} (hm : m < 12) :
    fromJanuary? m = some (if m < 10 then m + 3 else m - 9) := by
  have hsize : UInt64.size = 18446744073709551616 := rfl
  unfold fromJanuary?
  split
  · exact word?_of_lt (by omega)
  · exact difference?_of_le (by omega)

theorem bind_of_eq_some {α β : Type} {x : Option α} {f : α → Option β} {a : α} {result : Option β}
    (hx : x = some a) (hf : f a = result) : (x >>= f) = result := by
  rw [hx]
  exact hf

theorem ofSeconds?_eq (s : UInt64) : ofSeconds? s = some (ofSeconds s) := by
  have hsize : UInt64.size = 18446744073709551616 := rfl
  have hs : s.toNat < UInt64.size := s.toNat_lt_size
  have hera : (s.toNat / 86400 + daysBefore1970) % eraDays < eraDays := Nat.mod_lt _ (by decide)
  have hdays : s.toNat / 86400 + daysBefore1970 < 1000000000000000 := by
    unfold daysBefore1970
    omega
  have heras : (s.toNat / 86400 + daysBefore1970) / eraDays * 400 ≤ 1000000000000000 := by
    unfold eraDays
    omega
  obtain ⟨hyear, hlow, hhigh⟩ := yearOfEra_spec hera
  have hday := hhigh.trans_le (show yearLength _ ≤ 366 by unfold yearLength; split <;> decide)
  obtain ⟨hmonth, hbefore, -⟩ := monthOfYear_spec hday
  have hone : ∀ month, (if month ≤ 2 then 1 else 0) ≤ 1 := by
    intro month
    split <;> decide
  -- one line for each checked step, in the order of `ofSeconds?`
  refine bind_of_eq_some (word?_of_lt (by omega)) ?_
  refine bind_of_eq_some (yearOfEra?_eq hera) ?_
  refine bind_of_eq_some (dayOfYear?_eq hyear hlow) ?_
  refine bind_of_eq_some (monthOfYear?_eq hday) ?_
  refine bind_of_eq_some (daysBeforeMonth?_eq hmonth) ?_
  refine bind_of_eq_some (difference?_of_le hbefore) ?_
  refine bind_of_eq_some (word?_of_lt (by omega)) ?_
  refine bind_of_eq_some (fromJanuary?_eq hmonth) ?_
  refine bind_of_eq_some (word?_of_lt (by omega)) ?_
  refine bind_of_eq_some (word?_of_lt (by omega)) ?_
  refine bind_of_eq_some (word?_of_lt ?_) rfl
  exact (Nat.add_le_add_left (hone _) _).trans_lt (by omega)

/-! ## Printed dates -/

/-- The digits `cs` say `n`, in `width` places or, where these are too few, in as many as it takes. -/
structure IsNumeral (width n : Nat) (cs : List Char) : Prop where
  digits : ∀ c ∈ cs, c.isDigit = true
  value : Decimal.digitsValue cs = n
  length : cs.length = max width (Nat.toDigits 10 n).length

theorem isNumeral_padded (width n : Nat) : IsNumeral width n (padded width n) where
  digits := by
    intro c hc
    rcases List.mem_append.1 hc with hc | hc
    · exact Decimal.isDigit_of_mem_zeros hc
    · exact Decimal.isDigit_of_mem_toDigits hc
  value := by
    rw [padded, Decimal.digitsValue_zeros_append, Decimal.digitsValue_toDigits]
  length := by
    simp only [padded, List.length_append, List.length_replicate]
    omega

theorem length_padded {width n : Nat} (hw : 0 < width) (h : n < 10 ^ width) :
    (padded width n).length = width := by
  rw [(isNumeral_padded width n).length]
  exact max_eq_left ((Nat.length_toDigits_le_iff (by decide) hw).2 h)

theorem padded_injective (width : Nat) : Function.Injective (padded width) := by
  intro m n h
  rw [← (isNumeral_padded width m).value, h, (isNumeral_padded width n).value]

theorem padded_append_lt_iff {width m n : Nat} (hw : 0 < width) (hm : m < 10 ^ width)
    (hn : n < 10 ^ width) (xs ys : List Char) :
    padded width m ++ xs < padded width n ++ ys ↔ m < n ∨ m = n ∧ xs < ys := by
  have hlength : (padded width m).length = (padded width n).length := by
    rw [length_padded hw hm, length_padded hw hn]
  rw [append_lt_append_iff hlength, (padded_injective width).eq_iff,
    Decimal.lt_iff_digitsValue_lt hlength (isNumeral_padded width m).digits
      (isNumeral_padded width n).digits,
    (isNumeral_padded width m).value, (isNumeral_padded width n).value]

theorem toList_text (t : Instant) : t.text.toList =
    padded 4 t.year ++ '-' :: (padded 2 t.month ++ '-' :: (padded 2 t.day ++ 'T' ::
      (padded 2 t.hour ++ ':' :: (padded 2 t.minute ++ ':' :: (padded 2 t.second ++ ['Z']))))) := by
  simp [text]

theorem IsDate.two_places (h : t.IsDate) : t.month < 10 ^ 2 ∧ t.day < 10 ^ 2 ∧ t.hour < 10 ^ 2 ∧
    t.minute < 10 ^ 2 ∧ t.second < 10 ^ 2 := by
  have hmonth := h.month
  have hday := h.day
  have hhour := h.hour
  have hminute := h.minute
  have hsecond := h.second
  have hlength : monthLength t.year t.month ≤ 31 := by
    unfold monthLength
    split
    · split <;> decide
    all_goals decide
  omega

theorem padded_append_inj {m n : Nat} (hm : m < 10 ^ 2) (hn : n < 10 ^ 2) {xs ys : List Char}
    (h : padded 2 m ++ xs = padded 2 n ++ ys) : m = n ∧ xs = ys := by
  have hlength : (padded 2 m).length = (padded 2 n).length := by
    rw [length_padded Nat.two_pos hm, length_padded Nat.two_pos hn]
  exact (List.append_inj h hlength).imp_left fun h => padded_injective 2 h

theorem eq_of_text_eq (ht : t.IsDate) (hu : u.IsDate) (h : t.text = u.text) : t = u := by
  obtain ⟨htmonth, htday, hthour, htminute, htsecond⟩ := ht.two_places
  obtain ⟨humonth, huday, huhour, huminute, husecond⟩ := hu.two_places
  have hlist : t.text.toList = u.text.toList := by rw [h]
  rw [toList_text, toList_text] at hlist
  -- the year may have more than four digits, so it is what the parts of two places leave in front
  obtain ⟨hyear, hrest⟩ := List.append_inj' hlist (by
    simp only [List.length_cons, List.length_append, length_padded Nat.two_pos, *])
  obtain ⟨hmonth, hrest⟩ := padded_append_inj htmonth humonth (List.cons.inj hrest).2
  obtain ⟨hday, hrest⟩ := padded_append_inj htday huday (List.cons.inj hrest).2
  obtain ⟨hhour, hrest⟩ := padded_append_inj hthour huhour (List.cons.inj hrest).2
  obtain ⟨hminute, hrest⟩ := padded_append_inj htminute huminute (List.cons.inj hrest).2
  obtain ⟨hsecond, -⟩ := padded_append_inj htsecond husecond (List.cons.inj hrest).2
  have hyear := padded_injective 4 hyear
  cases t
  cases u
  simp_all

/-! ## The order of dates -/

/-- One instant comes before another: the first part in which they differ decides. -/
def Before (t u : Instant) : Prop :=
  t.year < u.year ∨ t.year = u.year ∧ (t.month < u.month ∨ t.month = u.month ∧
    (t.day < u.day ∨ t.day = u.day ∧ (t.hour < u.hour ∨ t.hour = u.hour ∧
      (t.minute < u.minute ∨ t.minute = u.minute ∧ t.second < u.second))))

theorem before_trichotomy (t u : Instant) : t.Before u ∨ t = u ∨ u.Before t := by
  cases t
  cases u
  simp only [Before, Instant.mk.injEq]
  omega

theorem text_lt_text_iff (ht : t.IsDate) (hu : u.IsDate) (hty : t.year < 10 ^ 4)
    (huy : u.year < 10 ^ 4) : t.text < u.text ↔ t.Before u := by
  obtain ⟨htmonth, htday, hthour, htminute, htsecond⟩ := ht.two_places
  obtain ⟨humonth, huday, huhour, huminute, husecond⟩ := hu.two_places
  have hcons : ∀ (c : Char) (xs ys : List Char), c :: xs < c :: ys ↔ xs < ys := by
    intro c xs ys
    rw [List.cons_lt_cons_iff]
    simp
  show t.text.toList < u.text.toList ↔ _
  rw [toList_text, toList_text, Before,
    padded_append_lt_iff (by decide) hty huy, hcons,
    padded_append_lt_iff Nat.two_pos htmonth humonth, hcons,
    padded_append_lt_iff Nat.two_pos htday huday, hcons,
    padded_append_lt_iff Nat.two_pos hthour huhour, hcons,
    padded_append_lt_iff Nat.two_pos htminute huminute, hcons,
    padded_append_lt_iff Nat.two_pos htsecond husecond]
  simp

theorem IsDate.daysSince1970_lt (h : t.IsDate) :
    t.daysSince1970 < daysToYear t.year + daysToMonth t.year t.month + monthLength t.year t.month := by
  have hday := h.day
  rw [daysSince1970]
  omega

theorem IsDate.daysSince1970_lt_year (h : t.IsDate) :
    t.daysSince1970 < daysToYear t.year + yearLength t.year := by
  have hmonth := h.month
  have hlt := h.daysSince1970_lt
  have hyear := daysToMonth_add_le t.year hmonth.1 (Nat.lt_succ_of_le hmonth.2)
  rw [daysToMonth_thirteen] at hyear
  omega

theorem seconds_lt_of_before (ht : t.IsDate) (hu : u.IsDate) (h : t.Before u) :
    t.seconds < u.seconds := by
  have htday := ht.day
  have huday := hu.day
  have hthour := ht.hour
  have htminute := ht.minute
  have htsecond := ht.second
  have hdays : t.daysSince1970 < u.daysSince1970 → t.seconds < u.seconds := by
    intro hlt
    rw [seconds, seconds]
    omega
  have hstart : daysToYear u.year + daysToMonth u.year u.month ≤ u.daysSince1970 :=
    Nat.le_add_right _ _
  -- a year and a month are over before the next begins; from the days on it is a sum of places
  rcases h with hyear | ⟨hyear, hmonth | ⟨hmonth, hday | ⟨hday, hrest⟩⟩⟩
  · have hlt := ht.daysSince1970_lt_year
    have hle := daysToYear_add_le ht.year hyear
    exact hdays (hlt.trans_le (hle.trans ((Nat.le_add_right _ _).trans hstart)))
  · have hlt := ht.daysSince1970_lt
    have hle := daysToMonth_add_le u.year ht.month.1 hmonth
    rw [hyear] at hlt
    exact hdays (by omega)
  · refine hdays ?_
    rw [daysSince1970, daysSince1970, hyear, hmonth]
    omega
  · have hsame : t.daysSince1970 = u.daysSince1970 := by
      rw [daysSince1970, daysSince1970, hyear, hmonth, hday]
    rw [seconds, seconds, hsame]
    omega

theorem before_iff_lt {s s' : UInt64} : (ofSeconds s).Before (ofSeconds s') ↔ s < s' := by
  obtain ⟨hdate, hseconds⟩ := ofSeconds_spec s
  obtain ⟨hdate', hseconds'⟩ := ofSeconds_spec s'
  rw [UInt64.lt_iff_toNat_lt, ← hseconds, ← hseconds']
  refine ⟨seconds_lt_of_before hdate hdate', ?_⟩
  intro hlt
  rcases before_trichotomy (ofSeconds s) (ofSeconds s') with h | h | h
  · exact h
  · rw [h] at hlt
    exact absurd hlt (Nat.lt_irrefl _)
  · exact absurd hlt (Nat.lt_asymm (seconds_lt_of_before hdate' hdate h))

/-- The text says the parts of the instant, each by digits of its own. -/
def Prints (t : Instant) (text : String) : Prop :=
  ∃ year month day hour minute second : List Char,
    IsNumeral 4 t.year year ∧ IsNumeral 2 t.month month ∧ IsNumeral 2 t.day day ∧
    IsNumeral 2 t.hour hour ∧ IsNumeral 2 t.minute minute ∧ IsNumeral 2 t.second second ∧
    text.toList = year ++ '-' :: (month ++ '-' :: (day ++ 'T' :: (hour ++ ':' :: (minute ++ ':' ::
      (second ++ ['Z'])))))

theorem prints_text (t : Instant) : t.Prints t.text :=
  ⟨_, _, _, _, _, _, isNumeral_padded _ _, isNumeral_padded _ _, isNumeral_padded _ _,
    isNumeral_padded _ _, isNumeral_padded _ _, isNumeral_padded _ _, toList_text t⟩

/-- **Timestamps are Gregorian.** The calendar takes every word for a number of seconds: no step of
its calculation leaves the range of words, the printed date and time are those of the Gregorian
calendar that many seconds behind the start of 1970, different words have different texts, and the
texts of years with four digits are in the order of the words. -/
theorem timestamps_are_gregorian :
    (∀ s, ofSeconds? s = some (ofSeconds s) ∧ (ofSeconds s).IsDate ∧
      (ofSeconds s).seconds = s.toNat ∧ (ofSeconds s).Prints (ofSeconds s).text) ∧
    (Function.Injective fun s => (ofSeconds s).text) ∧
    ∀ s s', (ofSeconds s).year < 10 ^ 4 → (ofSeconds s').year < 10 ^ 4 →
      ((ofSeconds s).text < (ofSeconds s').text ↔ s < s') := by
  refine ⟨?dates, ?injective, ?ordered⟩
  case dates =>
    intro s
    obtain ⟨hdate, hseconds⟩ := ofSeconds_spec s
    exact ⟨ofSeconds?_eq s, hdate, hseconds, prints_text _⟩
  case injective =>
    intro s s' htext
    obtain ⟨hdate, hseconds⟩ := ofSeconds_spec s
    obtain ⟨hdate', hseconds'⟩ := ofSeconds_spec s'
    have hsame : ofSeconds s = ofSeconds s' := eq_of_text_eq hdate hdate' htext
    rw [hsame, hseconds'] at hseconds
    exact (UInt64.toNat_inj.1 hseconds).symm
  case ordered =>
    intro s s' hyear hyear'
    rw [text_lt_text_iff (ofSeconds_spec s).1 (ofSeconds_spec s').1 hyear hyear', before_iff_lt]

/-- The leap day of a year that ends a century, and the last second of another century. -/
theorem timestamps_are_gregorian_centuries :
    (ofSeconds 951782400).text = "2000-02-29T00:00:00Z" ∧
    (ofSeconds 4102444799).text = "2099-12-31T23:59:59Z" ∧
    (ofSeconds 951782400).text < (ofSeconds 4102444799).text :=
  ⟨by decide +kernel, by decide +kernel,
    (timestamps_are_gregorian.2.2 951782400 4102444799 (by decide) (by decide)).2 (by decide)⟩

end Instant

end OffsideBench
