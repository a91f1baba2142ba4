import Mathlib.Data.Fintype.EquivFin
import OffsideBench.Sink

/-!
# What a sink remembers

Taking in a token kind loses nothing of the state of a sink: a fold is linear and maps no word but
zero to zero, and the factors of the generator are odd. Different kinds lead to different states, as
their codes change the increment in different ways. Both carry over to sequences of kinds.

Main statement: `Sink.value_tells_apart`.
-/

namespace OffsideBench

open Token (Kind)

namespace Sink

/-! ## The steps of the generator -/

/-- A shift makes every word smaller but zero. -/
theorem eq_zero_of_shiftRight_eq {shift z : UInt64} (hs : 0 < shift.toNat % 64)
    (h : z >>> shift = z) : z = 0 := by
  have hdiv : z.toNat / 2 ^ (shift.toNat % 64) = z.toNat := by
    rw [← Nat.shiftRight_eq_div_pow, ← UInt64.toNat_shiftRight, h]
  have hpow : 1 < 2 ^ (shift.toNat % 64) := Nat.one_lt_two_pow (by omega)
  by_contra hne
  have hpos : 0 < z.toNat := by
    have hz : z.toNat ≠ (0 : UInt64).toNat := fun e => hne (UInt64.toNat_inj.1 e)
    exact Nat.pos_of_ne_zero hz
  have hlt := Nat.div_lt_self hpos hpow
  omega

theorem foldRight_xor (shift x y : UInt64) :
    foldRight shift (x ^^^ y) = foldRight shift x ^^^ foldRight shift y := by
  unfold foldRight
  rw [UInt64.shiftRight_xor]
  ac_rfl

theorem foldRight_injective {shift : UInt64} (hs : 0 < shift.toNat % 64) :
    Function.Injective (foldRight shift) := by
  intro x y h
  have hzero : foldRight shift (x ^^^ y) = 0 := by
    rw [foldRight_xor, h, UInt64.xor_self]
  have hfix : (x ^^^ y) >>> shift = x ^^^ y := (UInt64.xor_eq_zero_iff.1 hzero).symm
  exact UInt64.xor_eq_zero_iff.1 (eq_zero_of_shiftRight_eq hs hfix)

theorem mul_injective {factor inverse : UInt64} (h : factor * inverse = 1) :
    Function.Injective (· * factor) := by
  intro x y hxy
  have hback := congrArg (· * inverse) hxy
  simpa only [UInt64.mul_assoc, h, UInt64.mul_one] using hback

theorem scramble_injective : Function.Injective scramble := by
  have h30 : Function.Injective (foldRight 30) := foldRight_injective (by decide)
  have h27 : Function.Injective (foldRight 27) := foldRight_injective (by decide)
  have h31 : Function.Injective (foldRight 31) := foldRight_injective (by decide)
  -- The inverses of the two factors modulo 2 ^ 64.
  have hfirst : (0xbf58476d1ce4e5b9 : UInt64) * 0x96de1b173f119089 = 1 := by decide
  have hsecond : (0x94d049bb133111eb : UInt64) * 0x319642b2d24d8ec3 = 1 := by decide
  intro x y h
  exact h30 (mul_injective hfirst (h27 (mul_injective hsecond (h31 h))))

/-! ## Kinds and sequences of kinds -/

theorem consume_injective (k : Kind) : Function.Injective fun s : Sink => s.consume k := by
  intro s t h
  have hvalue := scramble_injective (congrArg value h)
  have hst : s.value = t.value := (UInt64.add_left_inj _).1 hvalue
  cases s
  cases t
  exact congrArg Sink.mk hst

theorem toUInt64_code_injective : Function.Injective fun k : Kind => k.code.toUInt64 := by
  intro j k h
  have hcode := congrArg UInt64.toNat h
  have hj := Kind.code_lt j
  have hk := Kind.code_lt k
  simp only [Nat.toUInt64, UInt64.toNat_ofNat'] at hcode
  exact Kind.code_inj.1 (by omega)

/-- Different kinds lead from one state to different ones. -/
theorem kind_injective (s : Sink) : Function.Injective s.consume := by
  intro j k h
  have hvalue := scramble_injective (congrArg value h)
  have hcode := (UInt64.xor_right_inj _).1 ((UInt64.add_right_inj _).1 hvalue)
  exact toUInt64_code_injective hcode

theorem consumeAll_injective (ks : List Kind) :
    Function.Injective fun s : Sink => s.consumeAll ks := by
  induction ks with
  | nil => exact fun _ _ h => h
  | cons k ks ih =>
    intro s t h
    have hk : s.consume k = t.consume k := ih h
    exact consume_injective k hk

theorem value_injective : Function.Injective Sink.value := by
  intro s t h
  cases s
  cases t
  exact congrArg Sink.mk h

/-- Two sequences of one length that differ in one place agree in front of it and behind it. -/
theorem exists_append_of_differ {js ks : List Kind} (hlen : js.length = ks.length)
    (h : ∃! i : Nat, js[i]? ≠ ks[i]?) :
    ∃ as j k bs, js = as ++ j :: bs ∧ ks = as ++ k :: bs ∧ j ≠ k := by
  obtain ⟨i, hi, honly⟩ := h
  have hsame : ∀ n, n ≠ i → js[n]? = ks[n]? := by
    intro n hn
    by_contra hne
    exact hn (honly n hne)
  have hj : i < js.length := by
    by_contra hge
    exact hi (by rw [List.getElem?_eq_none (by omega), List.getElem?_eq_none (by omega)])
  have hk : i < ks.length := hlen ▸ hj
  have htake : js.take i = ks.take i := by
    refine List.ext_getElem? fun n => ?_
    rw [List.getElem?_take, List.getElem?_take]
    split
    · exact hsame n (by omega)
    · rfl
  have hdrop : js.drop (i + 1) = ks.drop (i + 1) := by
    refine List.ext_getElem? fun n => ?_
    rw [List.getElem?_drop, List.getElem?_drop]
    exact hsame _ (by omega)
  refine ⟨js.take i, js[i], ks[i], js.drop (i + 1), ?_, ?_, ?_⟩
  · rw [← List.drop_eq_getElem_cons hj, List.take_append_drop]
  · rw [htake, hdrop, ← List.drop_eq_getElem_cons hk, List.take_append_drop]
  · intro e
    exact hi (by rw [List.getElem?_eq_getElem hj, List.getElem?_eq_getElem hk, e])

/-- **The value of a sink tells seeds and sequences apart.** After any sequence of kinds the value
is a permutation of the seeds, so different seeds give different values; and from any seed two
sequences of one length that differ in exactly one place give different values. -/
theorem value_tells_apart :
    (∀ ks : List Kind, Function.Bijective fun seed => ((Sink.mk seed).consumeAll ks).value) ∧
    (∀ (seed : UInt64) (js ks : List Kind), js.length = ks.length →
      (∃! i : Nat, js[i]? ≠ ks[i]?) →
      ((Sink.mk seed).consumeAll js).value ≠ ((Sink.mk seed).consumeAll ks).value) := by
  constructor
  · intro ks
    have hfinite : Finite UInt64 := Finite.of_injective UInt64.toFin fun _ _ => UInt64.toFin_inj.1
    refine Finite.injective_iff_bijective.1 fun a b h => ?_
    exact congrArg value (consumeAll_injective ks (value_injective h))
  · intro seed js ks hlen hdiffer hvalue
    obtain ⟨as, j, k, bs, rfl, rfl, hjk⟩ := exists_append_of_differ hlen hdiffer
    have h := value_injective hvalue
    rw [consumeAll_append, consumeAll_append] at h
    exact hjk (kind_injective _ (consumeAll_injective bs h))

/-- The statement of `Sink.value_tells_apart` for two rows of kinds that differ in the second place,
and for two seeds. -/
theorem value_tells_apart_second_place :
    (∃! i : Nat, [Kind.ident, .assign, .int][i]? ≠ [Kind.ident, .eqEq, .int][i]?) ∧
    ((Sink.mk 5).consumeAll [.ident, .assign, .int]).value ≠
      ((Sink.mk 5).consumeAll [.ident, .eqEq, .int]).value ∧
    ((Sink.mk 5).consumeAll [.ident]).value ≠ ((Sink.mk 6).consumeAll [.ident]).value := by
  have hdiffer : ∃! i : Nat, [Kind.ident, .assign, .int][i]? ≠ [Kind.ident, .eqEq, .int][i]? := by
    refine ⟨1, by decide, fun i hi => ?_⟩
    match i with
    | 0 => exact absurd rfl hi
    | 1 => rfl
    | 2 => exact absurd rfl hi
    | _ + 3 => exact absurd rfl hi
  refine ⟨hdiffer, value_tells_apart.2 5 _ _ rfl hdiffer, fun h => ?_⟩
  have hseeds : (5 : UInt64) = 6 := (value_tells_apart.1 [.ident]).1 h
  exact absurd hseeds (by decide)

end Sink

end OffsideBench
