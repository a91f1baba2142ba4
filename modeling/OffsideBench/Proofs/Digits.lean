import Mathlib.Algebra.Group.Nat.Defs
import Mathlib.Data.List.Lex
import OffsideBench.Number.Decimal

/-!
# Rows of digits

What a row of decimal digits says, and how rows of one length compare: in the order of the numbers
that they say. Zeros in front of a row change nothing, zeros behind it multiply by powers of ten.
-/

namespace OffsideBench

/-- Texts whose first parts are equally long compare by these first. -/
theorem append_lt_append_iff {α : Type} [LT α] {as bs xs ys : List α}
    (h : as.length = bs.length) : as ++ xs < bs ++ ys ↔ as < bs ∨ as = bs ∧ xs < ys := by
  induction as generalizing bs with
  | nil =>
    obtain rfl : bs = [] := List.length_eq_zero_iff.1 h.symm
    simp
  | cons a as ih =>
    cases bs with
    | nil => cases h
    | cons b bs =>
      have hlength : as.length = bs.length := Nat.succ.inj h
      rw [List.cons_append, List.cons_append, List.cons_lt_cons_iff, List.cons_lt_cons_iff,
        ih hlength, List.cons.injEq]
      tauto

namespace Decimal

variable {cs ds : List Char}

theorem digitsValue_eq (cs : List Char) : digitsValue cs = Nat.ofDigitChars 10 cs 0 := rfl

@[simp]
theorem digitsValue_toDigits (n : Nat) : digitsValue (Nat.toDigits 10 n) = n :=
  Nat.ofDigitChars_toDigits (by decide) (by decide)

theorem digitsValue_append (as bs : List Char) :
    digitsValue (as ++ bs) = digitsValue as * 10 ^ bs.length + digitsValue bs := by
  rw [digitsValue_eq, Nat.ofDigitChars_append, Nat.ofDigitChars_eq_ofDigitChars_zero, Nat.mul_comm]
  rfl

theorem digitsValue_cons (c : Char) (cs : List Char) :
    digitsValue (c :: cs) = (c.toNat - '0'.toNat) * 10 ^ cs.length + digitsValue cs := by
  have h := digitsValue_append [c] cs
  rwa [show digitsValue [c] = c.toNat - '0'.toNat from Nat.zero_add _] at h

theorem digitsValue_zeros (n : Nat) : digitsValue (List.replicate n '0') = 0 := by
  rw [digitsValue_eq, Nat.ofDigitChars_replicate_zero, Nat.mul_zero]

/-- Zeros in front of a row change nothing. -/
theorem digitsValue_zeros_append (n : Nat) (cs : List Char) :
    digitsValue (List.replicate n '0' ++ cs) = digitsValue cs := by
  rw [digitsValue_append, digitsValue_zeros, Nat.zero_mul, Nat.zero_add]

/-- Zeros behind a row multiply by a power of ten. -/
theorem digitsValue_append_zeros (cs : List Char) (n : Nat) :
    digitsValue (cs ++ List.replicate n '0') = digitsValue cs * 10 ^ n := by
  rw [digitsValue_append, digitsValue_zeros, Nat.add_zero, List.length_replicate]

theorem isDigit_of_mem_toDigits {c : Char} {n : Nat} (h : c ∈ Nat.toDigits 10 n) :
    c.isDigit = true := Nat.isDigit_of_mem_toDigits (by decide) (by decide) h

theorem isDigit_of_mem_zeros {c : Char} {n : Nat} (h : c ∈ List.replicate n '0') :
    c.isDigit = true := by
  rw [List.eq_of_mem_replicate h]
  rfl

theorem digitsValue_lt (h : ∀ c ∈ cs, c.isDigit = true) : digitsValue cs < 10 ^ cs.length := by
  induction cs with
  | nil => exact Nat.one_pos
  | cons c cs ih =>
    obtain ⟨hc, hcs⟩ := List.forall_mem_cons.1 h
    have hlt := ih hcs
    have hdigit : c.toNat - '0'.toNat ≤ 9 := by
      have h9 : c.toNat ≤ 57 := (Char.isDigit_iff_toNat.1 hc).2
      have h0 : '0'.toNat = 48 := rfl
      omega
    calc digitsValue (c :: cs)
        = (c.toNat - '0'.toNat) * 10 ^ cs.length + digitsValue cs := digitsValue_cons c cs
      _ ≤ 9 * 10 ^ cs.length + digitsValue cs :=
          Nat.add_le_add_right (Nat.mul_le_mul_right _ hdigit) _
      _ < 9 * 10 ^ cs.length + 10 ^ cs.length := Nat.add_lt_add_left hlt _
      _ = 10 ^ (c :: cs).length := by rw [List.length_cons, Nat.pow_succ]; omega

/-- Rows of one length compare like the numbers that they say. -/
theorem lt_iff_digitsValue_lt (h : cs.length = ds.length) (hcs : ∀ c ∈ cs, c.isDigit = true)
    (hds : ∀ c ∈ ds, c.isDigit = true) : cs < ds ↔ digitsValue cs < digitsValue ds := by
  induction cs generalizing ds with
  | nil =>
    obtain rfl : ds = [] := List.length_eq_zero_iff.1 h.symm
    simp
  | cons c cs ih =>
    cases ds with
    | nil => cases h
    | cons d ds =>
      have hlength : cs.length = ds.length := Nat.succ.inj h
      obtain ⟨hc, hcs⟩ := List.forall_mem_cons.1 hcs
      obtain ⟨hd, hds⟩ := List.forall_mem_cons.1 hds
      have hltc := digitsValue_lt hcs
      have hltd := digitsValue_lt hds
      rw [List.cons_lt_cons_iff, ih hlength hcs hds, digitsValue_cons, digitsValue_cons]
      rw [hlength] at hltc ⊢
      have hc0 := (Char.isDigit_iff_toNat.1 hc).1
      have hd0 := (Char.isDigit_iff_toNat.1 hd).1
      generalize 10 ^ ds.length = p at hltc hltd ⊢
      -- the first digits decide, unless they are the same
      rcases Nat.lt_trichotomy c.toNat d.toNat with hlt | heq | hgt
      · refine iff_of_true (.inl hlt) ?_
        have hstep : (c.toNat - '0'.toNat + 1) * p ≤ (d.toNat - '0'.toNat) * p :=
          Nat.mul_le_mul_right _ (by omega)
        rw [Nat.succ_mul] at hstep
        omega
      · obtain rfl := Char.toNat_inj.1 heq
        simp
      · have hstep : (d.toNat - '0'.toNat + 1) * p ≤ (c.toNat - '0'.toNat) * p :=
          Nat.mul_le_mul_right _ (by omega)
        rw [Nat.succ_mul] at hstep
        refine iff_of_false ?_ (by omega)
        rintro (hlt | ⟨rfl, -⟩)
        · exact absurd hgt (Nat.lt_asymm hlt)
        · exact lt_irrefl _ hgt

end Decimal

end OffsideBench
