import Mathlib.Data.List.TakeWhile
import Mathlib.Tactic.ByContra
import OffsideBench.Piece

/-!
# How tokens are spelled

The pattern of each kind of token, stated apart from any scanner: `Spells k cs` says that the text
`cs` is a token of kind `k`. A scanner only ever finds texts that match the pattern of their kind
(`Dialect.spells_piece`). In the other direction a text that matches a pattern is found again as
one piece, wherever what follows it cannot make it longer (`Spells.piece_braced`).
-/

namespace OffsideBench

open Token (Kind)

/-- A kind of content is no kind of structure. -/
theorem Token.Kind.ne_of_isContent {j k : Kind} (hj : j.isContent = true)
    (hk : k.isContent = false) : j ≠ k := by
  rintro rfl
  rw [hj] at hk
  cases hk

/-- One or more line breaks, each together with the indentation behind it. -/
inductive LineBreaks : List Char → Prop where
  /-- A single line break. -/
  | last {cr blanks : List Char} (hcr : cr = [] ∨ cr = ['\r'])
      (hb : ∀ c ∈ blanks, isIndentBlank c = true) : LineBreaks (cr ++ '\n' :: blanks)
  /-- A line break in front of others. -/
  | more {cr blanks cs : List Char} (hcr : cr = [] ∨ cr = ['\r'])
      (hb : ∀ c ∈ blanks, isIndentBlank c = true) (h : LineBreaks cs) :
      LineBreaks (cr ++ '\n' :: (blanks ++ cs))

/-- The text `cs` matches the pattern of the kind `k`. The kinds that stand for no text of their
own match nothing. -/
inductive Spells : Kind → List Char → Prop where
  /-- A keyword or an identifier. -/
  | word {c : Char} {cs : List Char} (hc : isWordStart c = true)
      (hcs : ∀ x ∈ cs, isWordPart x = true) : Spells (Kind.ofWord (c :: cs)) (c :: cs)
  /-- A number. -/
  | int {c : Char} {cs : List Char} (hc : c.isDigit = true)
      (hcs : ∀ x ∈ cs, x.isDigit = true) : Spells .int (c :: cs)
  /-- A string with its quotes. -/
  | str {cs : List Char} (hcs : ∀ x ∈ cs, isStringPart x = true) :
      Spells .str ('"' :: (cs ++ ['"']))
  /-- An assignment. -/
  | assign : Spells .assign ['=']
  /-- A comparison. -/
  | eqEq : Spells .eqEq ['=', '=']
  /-- One of the other operators. -/
  | operator {c : Char} {k : Kind} (h : operator? c = some k) : Spells k [c]
  /-- A mark of block structure. -/
  | brace {c : Char} {k : Kind} (h : brace? c = some k) : Spells k [c]
  /-- Line breaks up to the next line with more than blanks on it. -/
  | newline {cs : List Char} (h : LineBreaks cs) : Spells .newline cs

/-! ## Character classes -/

section Characters

variable {d : Dialect} {c : Char} {k : Kind}

/-- Blanks are among five characters in both forms. -/
theorem Dialect.eq_of_isBlank (h : d.isBlank c = true) :
    c = ' ' ∨ c = '\t' ∨ c = '\x0c' ∨ c = '\n' ∨ c = '\r' := by
  simp only [isBlank, isIndentBlank, isBreak, Bool.or_eq_true, Bool.and_eq_true, beq_iff_eq] at h
  rcases h with ((h | h) | h) | ⟨-, h | h⟩ <;> simp [h]

/-- Every operator is one of ten characters. -/
theorem eq_of_operator? (h : operator? c = some k) :
    c = ':' ∨ c = ',' ∨ c = '(' ∨ c = ')' ∨ c = '+' ∨ c = '-' ∨ c = '*' ∨ c = '/' ∨ c = '<' ∨
      c = '>' := by
  unfold operator? at h
  split at h <;> simp_all

/-- Every mark of block structure is one of three characters. -/
theorem eq_of_brace? (h : brace? c = some k) : c = '{' ∨ c = '}' ∨ c = ';' := by
  unfold brace? at h
  split at h <;> simp_all

theorem operator?_ne_newline (c : Char) : operator? c ≠ some .newline := by
  intro h
  rcases eq_of_operator? h with
    rfl | rfl | rfl | rfl | rfl | rfl | rfl | rfl | rfl | rfl <;> cases h

theorem not_isBlank_of_isWordStart (h : isWordStart c = true) : d.isBlank c = false := by
  by_contra hb
  rw [Bool.not_eq_false] at hb
  rcases d.eq_of_isBlank hb with rfl | rfl | rfl | rfl | rfl <;> exact absurd h (by decide)

theorem not_isBlank_of_isDigit (h : c.isDigit = true) : d.isBlank c = false := by
  by_contra hb
  rw [Bool.not_eq_false] at hb
  rcases d.eq_of_isBlank hb with rfl | rfl | rfl | rfl | rfl <;> exact absurd h (by decide)

theorem not_isWordStart_of_isDigit (h : c.isDigit = true) : isWordStart c = false := by
  by_contra hw
  rw [Bool.not_eq_false, isWordStart, Bool.or_eq_true, beq_iff_eq] at hw
  rcases hw with hw | rfl
  · obtain ⟨-, h9⟩ := Bool.and_eq_true_iff.1 h
    have h9 : c.val.toNat ≤ 57 := of_decide_eq_true h9
    rcases Bool.or_eq_true_iff.1 hw with hw | hw
    · have hA : 65 ≤ c.val.toNat := (of_decide_eq_true hw).1
      omega
    · obtain ⟨ha, -⟩ := Bool.and_eq_true_iff.1 hw
      have ha : 97 ≤ c.val.toNat := of_decide_eq_true ha
      omega
  · exact absurd h (by decide)

end Characters

/-! ## Which piece stands at the front -/

namespace Dialect

variable {d : Dialect} {c : Char} {k : Kind}

theorem piece_blank (h : d.isBlank c = true) (cs : List Char) :
    d.piece c cs = .run .gap d.isBlank c cs := by
  unfold piece
  rw [if_pos h]

theorem piece_word (h : isWordStart c = true) (cs : List Char) : d.piece c cs = .word c cs := by
  have hb : ¬ d.isBlank c = true := by simp [not_isBlank_of_isWordStart h]
  have hc : c ≠ '#' := by rintro rfl; exact absurd h (by decide)
  unfold piece
  rw [if_neg hb, if_neg hc, if_pos h]

theorem piece_digit (h : c.isDigit = true) (cs : List Char) :
    d.piece c cs = .run (.token .int) Char.isDigit c cs := by
  have hb : ¬ d.isBlank c = true := by simp [not_isBlank_of_isDigit h]
  have hc : c ≠ '#' := by rintro rfl; exact absurd h (by decide)
  have hw : ¬ isWordStart c = true := by simp [not_isWordStart_of_isDigit h]
  unfold piece
  rw [if_neg hb, if_neg hc, if_neg hw, if_pos h]

theorem piece_quote (cs : List Char) : d.piece '"' cs = .quoted cs := by cases d <;> rfl

theorem piece_operator (h : operator? c = some k) (cs : List Char) :
    d.piece c cs = ⟨.token k, [c], cs⟩ := by
  rcases eq_of_operator? h with rfl | rfl | rfl | rfl | rfl | rfl | rfl | rfl | rfl | rfl <;>
    cases h <;> cases d <;> rfl

theorem piece_brace (h : brace? c = some k) (cs : List Char) :
    Dialect.braced.piece c cs = ⟨.token k, [c], cs⟩ := by
  rcases eq_of_brace? h with rfl | rfl | rfl <;> cases h <;> rfl

end Dialect

/-! ## Line breaks -/

theorem LineBreaks.cons {cr blanks cs : List Char} (hcr : cr = [] ∨ cr = ['\r'])
    (hb : ∀ c ∈ blanks, isIndentBlank c = true)
    (h : cs = blanks ∨ ∃ bs, LineBreaks bs ∧ cs = blanks ++ bs) :
    LineBreaks (cr ++ '\n' :: cs) := by
  rcases h with rfl | ⟨bs, hbs, rfl⟩
  · exact .last hcr hb
  · exact .more hcr hb hbs

/-- Behind a line break the scanner takes blanks, and then further line breaks or nothing. -/
theorem Piece.breakRun_shape (cs : List Char) :
    ∃ blanks, (∀ c ∈ blanks, isIndentBlank c = true) ∧
      (breakRun cs = blanks ∨ ∃ bs, LineBreaks bs ∧ breakRun cs = blanks ++ bs) := by
  fun_induction breakRun cs with
  | case1 cs ih =>
    obtain ⟨blanks, hb, h⟩ := ih
    exact ⟨[], by simp, .inr ⟨_, .cons (.inr rfl) hb h, rfl⟩⟩
  | case2 c cs _ hc ih =>
    obtain ⟨blanks, hb, h⟩ := ih
    rcases hc with rfl | hc
    · exact ⟨[], by simp, .inr ⟨_, .cons (.inl rfl) hb h, rfl⟩⟩
    · refine ⟨c :: blanks, ?_, ?_⟩
      · intro x hx
        rcases List.mem_cons.1 hx with rfl | hx
        · exact hc
        · exact hb x hx
      · rcases h with h | ⟨bs, hbs, h⟩
        · exact .inl (by rw [h])
        · exact .inr ⟨bs, hbs, by rw [h, List.cons_append]⟩
  | case3 => exact ⟨[], by simp, .inl rfl⟩
  | case4 => exact ⟨[], by simp, .inl rfl⟩

theorem Piece.lineBreaks_newline {cr : List Char} (hcr : cr = [] ∨ cr = ['\r']) (cs : List Char) :
    LineBreaks (Piece.newline (cr ++ ['\n']) cs).text := by
  obtain ⟨blanks, hb, h⟩ := breakRun_shape cs
  rw [newline, List.append_assoc, List.singleton_append]
  exact .cons hcr hb h

/-- Line breaks end in a line feed and the indentation of the line that they lead to. -/
theorem LineBreaks.eq_append {cs : List Char} (h : LineBreaks cs) :
    ∃ front blanks, cs = front ++ '\n' :: blanks ∧ ∀ c ∈ blanks, isIndentBlank c = true := by
  induction h with
  | last _ hb => exact ⟨_, _, rfl, hb⟩
  | @more cr blanks cs _ _ _ ih =>
    obtain ⟨front, last, rfl, hb⟩ := ih
    exact ⟨cr ++ '\n' :: (blanks ++ front), last, by simp, hb⟩

/-- The indentation behind a line break is taken as a whole. -/
theorem Piece.newline_rest (text cs : List Char) :
    ∀ x ∈ (Piece.newline text cs).rest.head?, isIndentBlank x = false := by
  show ∀ x ∈ (cs.drop (breakRun cs).length).head?, isIndentBlank x = false
  fun_induction breakRun cs with
  | case1 cs ih => simpa using ih
  | case2 c cs _ _ ih => simpa using ih
  | case3 c cs _ hc =>
    intro x hx
    obtain rfl : c = x := by simpa using hx
    have := not_or.1 hc
    simpa using this.2
  | case4 => simp

/-! ## What is found matches its pattern -/

theorem Piece.spells_quoted (cs : List Char) {k : Kind} :
    (Piece.quoted cs).role = .token k → Spells k (Piece.quoted cs).text := by
  unfold quoted
  split
  · intro h
    cases h
    exact .str fun x hx => List.mem_takeWhile_imp hx
  · intro h
    cases h

theorem Piece.spells_equals (cs : List Char) {k : Kind} :
    (Piece.equals cs).role = .token k → Spells k (Piece.equals cs).text := by
  unfold equals
  split
  · intro h
    cases h
    exact .eqEq
  · intro h
    cases h
    exact .assign

theorem Dialect.spells_punctuation {d : Dialect} {c : Char} {k : Kind}
    (h : d.punctuation? c = some k) : Spells k [c] := by
  cases d with
  | dented => exact .operator h
  | braced =>
    rw [punctuation?] at h
    cases ho : operator? c with
    | some k' =>
      rw [ho] at h
      cases h
      exact .operator ho
    | none =>
      rw [ho] at h
      exact .brace h

/-- A token that is found at the front of a text matches the pattern of its kind. -/
theorem Dialect.spells_piece (d : Dialect) (c : Char) (cs : List Char) {k : Kind}
    (h : (d.piece c cs).role = .token k) : Spells k (d.piece c cs).text := by
  have hbegins := d.begins c cs
  generalize d.piece c cs = p at h hbegins ⊢
  cases hbegins with
  | word hw =>
    cases h
    exact .word hw fun x hx => List.mem_takeWhile_imp hx
  | int hd =>
    cases h
    exact .int hd fun x hx => List.mem_takeWhile_imp hx
  | quoted => exact Piece.spells_quoted cs h
  | equals => exact Piece.spells_equals cs h
  | lineFeed =>
    cases h
    exact .newline (Piece.lineBreaks_newline (.inl rfl) cs)
  | lineBreak =>
    cases h
    exact .newline (Piece.lineBreaks_newline (.inr rfl) _)
  | mark hk =>
    cases h
    exact spells_punctuation hk
  | _ => cases h

/-! ## Where line feeds stand -/

theorem Spells.kind_ofWord (cs : List Char) : (Kind.ofWord cs).isContent = true := by
  unfold Kind.ofWord
  split <;> rfl

/-- What is spelled as a line break is one or more line breaks. -/
theorem Spells.lineBreaks {k : Kind} {cs : List Char} (h : Spells k cs) (hk : k = .newline) :
    LineBreaks cs := by
  cases h with
  | word => exact absurd hk (Kind.ne_of_isContent (kind_ofWord _) rfl)
  | operator h => exact absurd (hk ▸ h) (operator?_ne_newline _)
  | brace h =>
    subst hk
    rcases eq_of_brace? h with rfl | rfl | rfl <;> cases h
  | newline h => exact h
  | _ => cases hk

/-- Only line breaks hold line feeds. -/
theorem Spells.not_mem_newline {k : Kind} {cs : List Char} (h : Spells k cs) (hk : k ≠ .newline) :
    '\n' ∉ cs := by
  intro hn
  cases h with
  | word hc hcs =>
    rcases List.mem_cons.1 hn with rfl | hn
    · exact absurd hc (by decide)
    · exact absurd (hcs _ hn) (by decide)
  | int hc hcs =>
    rcases List.mem_cons.1 hn with rfl | hn
    · exact absurd hc (by decide)
    · exact absurd (hcs _ hn) (by decide)
  | str hcs =>
    simp only [List.mem_cons, List.mem_append, List.not_mem_nil, or_false] at hn
    rcases hn with hn | hn | hn
    · exact absurd hn (by decide)
    · exact absurd (hcs _ hn) (by decide)
    · exact absurd hn (by decide)
  | assign => exact absurd hn (by decide)
  | eqEq => exact absurd hn (by decide)
  | operator h =>
    obtain rfl := List.mem_singleton.1 hn
    cases h
  | brace h =>
    obtain rfl := List.mem_singleton.1 hn
    cases h
  | newline => exact hk rfl

/-- In the dented form gaps hold no line feeds. -/
theorem Dialect.not_mem_gap {c : Char} {cs : List Char}
    (h : (Dialect.dented.piece c cs).role = .gap) : '\n' ∉ (Dialect.dented.piece c cs).text := by
  have hrun : ∀ p : Char → Bool, p c = true → p '\n' = false →
      '\n' ∉ (Piece.run .gap p c cs).text := by
    intro p hc hn hm
    rcases List.mem_cons.1 hm with rfl | hm
    · rw [hn] at hc
      cases hc
    · have := List.mem_takeWhile_imp hm
      rw [hn] at this
      cases this
  rcases piece_of_gap h with ⟨hb, hpiece⟩ | ⟨hc, hpiece⟩
  · rw [hpiece]
    exact hrun _ hb (by decide)
  · rw [hpiece]
    exact hrun _ (by rw [hc]; decide) (by decide)

/-- Behind line breaks and the indentation taken with them stands no further blank of it. -/
theorem Dialect.rest_of_newline {c : Char} {cs : List Char}
    (h : (Dialect.dented.piece c cs).role = .token .newline) :
    ∀ x ∈ (Dialect.dented.piece c cs).rest.head?, isIndentBlank x = false := by
  have hbegins := Dialect.dented.begins c cs
  generalize Dialect.dented.piece c cs = p at h hbegins ⊢
  cases hbegins with
  | word =>
    exact absurd (Piece.Role.token.inj h) (Kind.ne_of_isContent (Spells.kind_ofWord _) rfl)
  | quoted =>
    rcases Piece.role_quoted cs with hr | hr <;> rw [hr] at h <;> cases h
  | equals =>
    rcases Piece.role_equals cs with hr | hr <;> rw [hr] at h <;> cases h
  | lineFeed => exact Piece.newline_rest _ _
  | lineBreak => exact Piece.newline_rest _ _
  | mark hk =>
    cases h
    exact absurd hk (operator?_ne_newline c)
  | _ => cases h

/-! ## What matches a pattern is found -/

namespace Spells

variable {k : Kind} {c : Char} {cs : List Char}

/-- Only line breaks are structure with a text of its own. -/
theorem isContent_or_newline (h : Spells k cs) : k.isContent = true ∨ k = .newline := by
  cases h with
  | word => exact .inl (kind_ofWord _)
  | operator h =>
    rcases eq_of_operator? h with rfl | rfl | rfl | rfl | rfl | rfl | rfl | rfl | rfl | rfl <;>
      cases h <;> exact .inl rfl
  | brace h => rcases eq_of_brace? h with rfl | rfl | rfl <;> cases h <;> exact .inl rfl
  | newline => exact .inr rfl
  | _ => exact .inl rfl

theorem ne_nil (h : Spells k cs) : cs ≠ [] := by
  cases h with
  | newline h => cases h <;> simp
  | _ => simp

/-- In the braced form a token in front of a space is found as it stands there. -/
theorem piece_braced (h : Spells k (c :: cs)) (hk : k ≠ .newline) (rest : List Char) :
    Dialect.braced.piece c (cs ++ ' ' :: rest) = ⟨.token k, c :: cs, ' ' :: rest⟩ := by
  cases h with
  | word hc hcs =>
    have ht : (cs ++ ' ' :: rest).takeWhile isWordPart = cs := by
      rw [List.takeWhile_append_of_pos hcs, List.takeWhile_cons_of_neg (by decide), List.append_nil]
    have hd : (cs ++ ' ' :: rest).dropWhile isWordPart = ' ' :: rest := by
      rw [List.dropWhile_append_of_pos hcs, List.dropWhile_cons_of_neg (by decide)]
    rw [Dialect.piece_word hc, Piece.word, ht, hd]
  | int hc hcs =>
    rw [Dialect.piece_digit hc, Piece.run, List.takeWhile_append_of_pos hcs,
      List.dropWhile_append_of_pos hcs, List.takeWhile_cons_of_neg (by decide),
      List.dropWhile_cons_of_neg (by decide), List.append_nil]
  | @str cs hcs =>
    have hd : (cs ++ ['"'] ++ ' ' :: rest).dropWhile isStringPart = '"' :: ' ' :: rest := by
      rw [List.append_assoc, List.dropWhile_append_of_pos hcs]
      rfl
    have ht : (cs ++ ['"'] ++ ' ' :: rest).takeWhile isStringPart = cs := by
      rw [List.append_assoc, List.takeWhile_append_of_pos hcs]
      exact List.append_nil cs
    rw [Dialect.piece_quote, Piece.quoted, hd, ht]
    rfl
  | assign => rfl
  | eqEq => rfl
  | operator h => exact Dialect.piece_operator h _
  | brace h => exact Dialect.piece_brace h _
  | newline => exact absurd rfl hk

end Spells

end OffsideBench
