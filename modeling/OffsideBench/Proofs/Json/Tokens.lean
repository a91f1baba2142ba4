import OffsideBench.Json.Skip
import OffsideBench.Proofs.Digits
import OffsideBench.Proofs.Number.PrintAndParse
import OffsideBench.Proofs.Rows

/-!
# Strings and numbers of JSON read back

A string is read as it was written, whatever it holds: each escape stands for the character that it
was written for. A number is read to the same place and with the same value in front of everything
that may follow a value (`Ends`), so a number that reads back alone reads back anywhere. Whole
numbers of 64 bits always do.

Main statements: `string_quote`, `number_append` and `number_toDigits`.
-/

namespace OffsideBench.Json

theorem map_eq_ok_iff {ε α β : Type} {x : Except ε α} {f : α → β} {b : β} :
    x.map f = .ok b ↔ ∃ a, x = .ok a ∧ f a = b := by
  cases x <;> simp [Except.map]

/-! ## Strings -/

section Strings

variable {u : Unescape} {c : Char} {cs rest rest' : List Char}

theorem charsBy_quote : charsBy u ('"' :: rest) = .ok ([], rest) := by rw [charsBy]

theorem charsBy_escape (h : u.read rest = .ok (c, rest')) :
    charsBy u ('\\' :: rest) = (charsBy u rest').map fun p => (c :: p.1, p.2) := by
  rw [charsBy]
  split
  · rename_i e he
    rw [h] at he
    cases he
  · rename_i d tail hd
    rw [h] at hd
    cases hd
    rfl

theorem charsBy_plain (hquote : c ≠ '"') (hescape : c ≠ '\\') (hc : ¬ c.toNat < 0x20) :
    charsBy u (c :: rest) = (charsBy u rest).map fun p => (c :: p.1, p.2) := by
  rw [charsBy]
  · exact if_neg hc
  · exact hquote
  · exact hescape

/-- The four digits of a control character. -/
theorem codeUnit_hexByte {n : Nat} (hn : n < 0x20) (rest : List Char) :
    codeUnit ('0' :: '0' :: (Text.hexByte n.toUInt8 ++ rest)) = .ok (n, rest) := by
  have hbyte : n.toUInt8.toNat = n := UInt8.toNat_ofNat_of_lt' (hn.trans (by decide))
  have hsize : ∀ m : Fin 0x20, (String.ofList ['0', '0', Text.hexDigit (m.val / 16),
      Text.hexDigit (m.val % 16)]).utf8ByteSize = 4 := by decide +kernel
  have hzero : Text.hexValue? '0' = some 0 := rfl
  have hhigh : Text.hexValue? (Text.hexDigit (n / 16)) = some (n / 16) :=
    Text.hexValue?_hexDigit ⟨n / 16, by omega⟩
  have hlow : Text.hexValue? (Text.hexDigit (n % 16)) = some (n % 16) :=
    Text.hexValue?_hexDigit ⟨n % 16, by omega⟩
  have hvalue : ((0 * 16 + 0) * 16 + n / 16) * 16 + n % 16 = n := by omega
  rw [Text.hexByte, hbyte]
  unfold codeUnit
  rw [if_neg]
  · simp only [List.cons_append, List.nil_append, hzero, hhigh, hlow, hvalue]
  · show ¬ (String.ofList ['0', '0', Text.hexDigit (n / 16),
      Text.hexDigit (n % 16)]).utf8ByteSize < 4
    rw [hsize ⟨n, hn⟩]
    decide

/-- Control characters without a letter of their own are written by their codes. -/
theorem escaped_hexByte {c : Char} (hc : c.toNat < 0x20) (rest : List Char) :
    escaped ('u' :: '0' :: '0' :: (Text.hexByte c.toNat.toUInt8 ++ rest)) = .ok (c, rest) := by
  have hsecond : ¬ (0xdc00 ≤ c.toNat ∧ c.toNat ≤ 0xdfff) := by omega
  have hfirst : ¬ (0xd800 ≤ c.toNat ∧ c.toNat ≤ 0xdbff) := by omega
  rw [escaped, codeUnit_hexByte hc]
  simp only [if_neg hsecond, if_neg hfirst, Char.ofNat_toNat]

/-- A character is read as it was written. -/
theorem charsBy_escapeChar (c : Char) (rest : List Char) :
    charsBy .strict (escapeChar c ++ rest) =
      (charsBy .strict rest).map fun p => (c :: p.1, p.2) := by
  unfold escapeChar
  split
  · exact charsBy_escape rfl
  · exact charsBy_escape rfl
  · exact charsBy_escape rfl
  · exact charsBy_escape rfl
  · exact charsBy_escape rfl
  · exact charsBy_escape rfl
  · exact charsBy_escape rfl
  · rename_i hquote hescape _ _ _ _ _
    split
    · rename_i hc
      exact charsBy_escape (escaped_hexByte hc rest)
    · rename_i hc
      exact charsBy_plain hquote hescape hc

/-- A string is read as it was written. -/
theorem string_quote (s : String) (rest : List Char) :
    string (s.toList.flatMap escapeChar ++ '"' :: rest) = .ok (s, rest) := by
  have hchars : ∀ cs, charsBy .strict (cs.flatMap escapeChar ++ '"' :: rest) = .ok (cs, rest) := by
    intro cs
    induction cs with
    | nil => exact charsBy_quote
    | cons c cs ih =>
      rw [List.flatMap_cons, List.append_assoc, charsBy_escapeChar, ih]
      rfl
  rw [string, hchars, Except.map, String.ofList_toList]

end Strings

/-! ## Numbers in front of something else -/

/-- What may follow a value: nothing, a blank, a comma or a closing bracket. -/
def Ends (rest : List Char) : Prop := ∀ c ∈ rest.head?, isBlank c = true ∨ c ∈ [',', ']', '}']

/-- No number goes on with what may follow a value. -/
theorem Ends.not_numeral {rest : List Char} (h : Ends rest) :
    ∀ c ∈ rest.head?, c.isDigit = false ∧ c ≠ '.' ∧ c ≠ 'e' ∧ c ≠ 'E' := by
  intro c hc
  have hclass := h c hc
  simp only [isBlank, Bool.or_eq_true, beq_iff_eq, List.mem_cons, List.not_mem_nil,
    or_false] at hclass
  rcases hclass with (((rfl | rfl) | rfl) | rfl) | rfl | rfl | rfl <;> decide

theorem digits_eq_ok_iff {cs ds behind : List Char} : digits cs = .ok (ds, behind) ↔
    ds ≠ [] ∧ cs.takeWhile Char.isDigit = ds ∧ cs.dropWhile Char.isDigit = behind := by
  unfold digits
  constructor
  · intro h
    split at h
    · cases h
    · cases h
    · rename_i hnil hcons
      cases h
      refine ⟨?_, rfl, rfl⟩
      intro hds
      cases hbehind : cs.dropWhile Char.isDigit with
      | nil => exact hnil hds hbehind
      | cons c tail => exact hcons c tail hds hbehind
  · rintro ⟨hne, rfl, rfl⟩
    split
    · rename_i hds _
      exact absurd hds hne
    · rename_i hds _
      exact absurd hds hne
    · rfl

theorem wholeDigits_eq_ok_iff {cs ds behind : List Char} : wholeDigits cs = .ok (ds, behind) ↔
    digits cs = .ok (ds, behind) ∧ ∀ c tail, ds ≠ '0' :: c :: tail := by
  unfold wholeDigits
  constructor
  · intro h
    split at h
    · cases h
    · cases h
    · rename_i hzero hdigits
      cases h
      refine ⟨hdigits, ?_⟩
      rintro c tail rfl
      exact hzero c tail behind rfl
  · rintro ⟨hdigits, hzero⟩
    rw [hdigits]
    split
    · rename_i he
      cases he
    · rename_i c tail behind he
      cases he
      exact absurd rfl (hzero c tail)
    · rename_i he
      exact he.symm

theorem point_of_ne {cs : List Char} (h : ∀ c ∈ cs.head?, c ≠ '.') : point cs = .ok (none, cs) := by
  unfold point
  split
  · exact absurd rfl (h '.' rfl)
  · rfl

theorem exponent_of_ne {cs : List Char} (h : ∀ c ∈ cs.head?, c ≠ 'e' ∧ c ≠ 'E') :
    exponent cs = .ok (none, cs) := by
  cases cs with
  | nil => rfl
  | cons c cs => exact if_neg (not_or.2 (h c rfl))

section Append

variable {cs behind rest : List Char} (hrest : Ends rest)

include hrest

theorem digits_append {ds : List Char} (h : digits cs = .ok (ds, behind)) :
    digits (cs ++ rest) = .ok (ds, behind ++ rest) := by
  have hhead : ∀ c ∈ rest.head?, c.isDigit = false := fun c hc => (hrest.not_numeral c hc).1
  obtain ⟨hne, htake, hdrop⟩ := digits_eq_ok_iff.1 h
  refine digits_eq_ok_iff.2 ⟨hne, ?_, ?_⟩
  · rw [takeWhile_append_of_head hhead, htake]
  · rw [dropWhile_append_of_head hhead, hdrop]

theorem map_digits_append {α : Type} {f : List Char → α} {a : α}
    (h : ((digits cs).map fun p => (f p.1, p.2)) = .ok (a, behind)) :
    ((digits (cs ++ rest)).map fun p => (f p.1, p.2)) = .ok (a, behind ++ rest) := by
  obtain ⟨⟨ds, tail⟩, hdigits, hf⟩ := map_eq_ok_iff.1 h
  cases hf
  rw [digits_append hrest hdigits]
  rfl

theorem wholeDigits_append {ds : List Char} (h : wholeDigits cs = .ok (ds, behind)) :
    wholeDigits (cs ++ rest) = .ok (ds, behind ++ rest) := by
  obtain ⟨hdigits, hzero⟩ := wholeDigits_eq_ok_iff.1 h
  exact wholeDigits_eq_ok_iff.2 ⟨digits_append hrest hdigits, hzero⟩

theorem point_append {ds : Option (List Char)} (h : point cs = .ok (ds, behind)) :
    point (cs ++ rest) = .ok (ds, behind ++ rest) := by
  cases cs with
  | nil =>
    cases h
    exact point_of_ne fun c hc => (hrest.not_numeral c hc).2.1
  | cons c cs =>
    by_cases hc : c = '.'
    · subst hc
      exact map_digits_append hrest h
    · have hne : ∀ tail, ∀ x ∈ (c :: tail).head?, x ≠ '.' := by
        rintro tail x ⟨⟩
        exact hc
      rw [point_of_ne (hne cs)] at h
      cases h
      exact point_of_ne (hne _)

theorem exponent_append {e : Option (Bool × List Char)} (h : exponent cs = .ok (e, behind)) :
    exponent (cs ++ rest) = .ok (e, behind ++ rest) := by
  unfold exponent at h
  split at h
  · cases h
    exact exponent_of_ne fun c hc => (hrest.not_numeral c hc).2.2
  · rename_i c cs
    split at h
    · rename_i hc
      rw [List.cons_append, exponent.eq_def]
      simp only [if_pos hc]
      -- a sign stands in front of the digits, or there is a digit at once
      split at h
      · exact map_digits_append (f := fun ds => some (true, ds)) hrest h
      · exact map_digits_append (f := fun ds => some (false, ds)) hrest h
      · rename_i hminus hplus
        have happend := map_digits_append (f := fun ds => some (false, ds)) hrest h
        cases cs with
        | nil => cases h
        | cons d cs =>
          split
          · rename_i he
            cases he
            exact absurd rfl (hminus cs)
          · rename_i he
            cases he
            exact absurd rfl (hplus cs)
          · exact happend
    · rename_i hc
      cases h
      exact if_neg hc

theorem unsigned_append {negative : Bool} {m : Numeral}
    (h : unsigned negative cs = .ok (m, behind)) :
    unsigned negative (cs ++ rest) = .ok (m, behind ++ rest) := by
  unfold unsigned at h ⊢
  split at h
  · cases h
  rename_i whole tail hwhole
  rw [wholeDigits_append hrest hwhole]
  split at h
  · cases h
  rename_i places tail' hpoint
  simp only [point_append hrest hpoint]
  obtain ⟨⟨e, tail''⟩, hexponent, he⟩ := map_eq_ok_iff.1 h
  cases he
  rw [exponent_append hrest hexponent]
  rfl

theorem numeral_append {m : Numeral} (h : numeral cs = .ok (m, behind)) :
    numeral (cs ++ rest) = .ok (m, behind ++ rest) := by
  unfold numeral at h
  split at h
  · exact unsigned_append hrest h
  · rename_i hminus
    have happend := unsigned_append hrest h
    cases cs with
    | nil => cases h
    | cons c cs =>
      unfold numeral
      split
      · rename_i he
        cases he
        exact absurd rfl (hminus cs)
      · exact happend

/-- A number is read alike in front of what may follow it. -/
theorem number_append {n : Number} (h : number cs = .ok (n, behind)) :
    number (cs ++ rest) = .ok (n, behind ++ rest) := by
  unfold number at h ⊢
  split at h
  · cases h
  rename_i m tail hnumeral
  rw [numeral_append hrest hnumeral]
  obtain ⟨n, hvalue, hn⟩ := map_eq_ok_iff.1 h
  cases hn
  simp only [hvalue]
  rfl

end Append

/-! ## Whole numbers -/

/-- A row of digits is taken in as a whole if its number fits. -/
theorem absorb_of_lt {n : Nat} {cs : List Char} (h : Nat.ofDigitChars 10 cs n < UInt64.size) :
    absorb n cs = (Nat.ofDigitChars 10 cs n, []) := by
  induction cs generalizing n with
  | nil => rfl
  | cons c cs ih =>
    rw [Nat.ofDigitChars_cons] at h ⊢
    have hfirst : 10 * n + (c.toNat - '0'.toNat) < UInt64.size := by
      rw [Nat.ofDigitChars_eq_ofDigitChars_zero] at h
      have hpos : 0 < 10 ^ cs.length := Nat.pow_pos (by decide)
      have hle := Nat.le_mul_of_pos_left (10 * n + (c.toNat - '0'.toNat)) hpos
      omega
    rw [absorb]
    simp only [if_pos hfirst]
    exact ih h

/-- The digits of a number do not start with a needless zero. -/
theorem eq_zero_of_head_toDigits {n : Nat} (h : (Nat.toDigits 10 n).head? = some '0') : n = 0 := by
  have hone : ∀ m : Fin 10, m.val.digitChar = '0' → m.val = 0 := by decide
  induction n using Nat.strongRecOn with
  | ind n ih =>
    by_cases hn : n < 10
    · rw [Nat.toDigits_of_lt_base hn] at h
      exact hone ⟨n, hn⟩ (Option.some.inj h)
    · have hle : 10 ≤ n := Nat.not_lt.1 hn
      rw [Nat.toDigits_of_base_le (by decide) hle, List.head?_append_of_ne_nil] at h
      · have hzero := ih (n / 10) (by omega) h
        omega
      · exact Nat.toDigits_ne_nil

/-- A word of 64 bits is read as it was written. -/
theorem number_toDigits (n : UInt64) :
    number (Nat.toDigits 10 n.toNat) = .ok (.natural n, []) := by
  have hall : ∀ c ∈ Nat.toDigits 10 n.toNat, c.isDigit = true :=
    fun c => Decimal.isDigit_of_mem_toDigits
  have habsorb : absorb 0 (Nat.toDigits 10 n.toNat) = (n.toNat, []) := by
    have hvalue : Nat.ofDigitChars 10 (Nat.toDigits 10 n.toNat) 0 = n.toNat :=
      Decimal.digitsValue_toDigits n.toNat
    have hlt : Nat.ofDigitChars 10 (Nat.toDigits 10 n.toNat) 0 < UInt64.size := by
      rw [hvalue]
      exact n.toNat_lt
    rw [absorb_of_lt hlt, hvalue]
  have hwhole : wholeDigits (Nat.toDigits 10 n.toNat) = .ok (Nat.toDigits 10 n.toNat, []) := by
    refine wholeDigits_eq_ok_iff.2 ⟨digits_eq_ok_iff.2 ⟨Nat.toDigits_ne_nil, ?_, ?_⟩, ?_⟩
    · exact List.takeWhile_eq_self_iff.2 hall
    · exact List.dropWhile_eq_nil_iff.2 hall
    · intro c tail h
      have hzero : n.toNat = 0 := eq_zero_of_head_toDigits (by rw [h]; rfl)
      rw [hzero] at h
      cases h
  have hunsigned : unsigned false (Nat.toDigits 10 n.toNat) =
      .ok (⟨false, Nat.toDigits 10 n.toNat, none, none⟩, []) := by
    rw [unsigned, hwhole]
    rfl
  have hnumeral : numeral (Nat.toDigits 10 n.toNat) =
      .ok (⟨false, Nat.toDigits 10 n.toNat, none, none⟩, []) := by
    unfold numeral
    split
    · rename_i h
      rw [h] at hall
      exact absurd (hall '-' List.mem_cons_self) (by decide)
    · exact hunsigned
  rw [number, hnumeral]
  simp only [Numeral.value, habsorb]
  simp [Except.map]

/-! ## Floating-point numbers -/

/-- The characters of a floating-point number. -/
def isRealPart (c : Char) : Bool := c.isDigit || c == '-' || c == '+' || c == '.' || c == 'e'

theorem isRealPart_of_isDigit {c : Char} (h : c.isDigit = true) : isRealPart c = true := by
  simp [isRealPart, h]

theorem isRealPart_positional (d : Decimal) : ∀ c ∈ d.positional, isRealPart c = true := by
  intro c hc
  rcases (Decimal.positional_reads d).1.isDigit_or_point c hc with h | rfl
  · exact isRealPart_of_isDigit h
  · rfl

theorem isRealPart_scientific (d : Decimal) : ∀ c ∈ d.scientific, isRealPart c = true := by
  have hrow : ∀ n, ∀ c ∈ Nat.toDigits 10 n, isRealPart c = true := fun n c hc =>
    isRealPart_of_isDigit (Decimal.isDigit_of_mem_toDigits hc)
  have hmantissa := hrow d.coefficient
  intro c hc
  unfold Decimal.scientific Decimal.digits at hc
  rcases List.mem_append.1 hc with hc | hc
  · split at hc
    · cases hc
    · rename_i digit hd
      rw [hd] at hmantissa
      exact hmantissa c hc
    · rename_i digit rest _ hd
      rw [hd] at hmantissa
      rcases List.mem_cons.1 hc with rfl | hc
      · exact hmantissa _ List.mem_cons_self
      · rcases List.mem_cons.1 hc with rfl | hc
        · rfl
        · exact hmantissa c (List.mem_cons_of_mem _ hc)
  · rcases List.mem_cons.1 hc with rfl | hc
    · rfl
    · rcases List.mem_cons.1 hc with rfl | hc
      · split <;> rfl
      · exact hrow _ c hc

/-- A floating-point number is written without blanks and brackets. -/
theorem isRealPart_real (x : Binary64) : ∀ c ∈ real x, isRealPart c = true := by
  have hsign : ∀ c ∈ if x.negative then ['-'] else [], isRealPart c = true := by
    intro c hc
    split at hc
    · obtain rfl := List.mem_singleton.1 hc
      rfl
    · cases hc
  have hzero : ∀ c ∈ ['0', '.', '0'], isRealPart c = true := by simp [isRealPart]
  intro c hc
  unfold real at hc
  simp only at hc
  split at hc
  · exact (List.mem_append.1 hc).elim (hsign c) (hzero c)
  split at hc
  · rcases List.mem_append.1 hc with hc | hc
    · exact (List.mem_append.1 hc).elim (hsign c) (isRealPart_positional _ c)
    · split at hc
      · exact hzero c (List.mem_cons_of_mem _ hc)
      · cases hc
  · exact (List.mem_append.1 hc).elim (hsign c) (isRealPart_scientific _ c)

end OffsideBench.Json
