import OffsideBench.Lexeme
import OffsideBench.Proofs.Spelling

/-!
# A text as a row of stretches

Reading a text cuts it into stretches: gaps, tokens and faults. The stretches of a text do not
depend on what stands in front of it, so they can be compared between texts; the lexemes of a scan
are the same stretches with positions.

Main statements: `Scan.map_reading_items`, the items of a scan are the stretches that are no gaps,
with the texts that their spans cut out of the source; and `Scan.mem_items`, each lexeme of a scan
lies in the text at the place that its positions say, and matches the pattern of its kind.
-/

namespace OffsideBench

open Token (Kind)

/-- A stretch of a text and what it is. -/
structure Stretch where
  /-- What the stretch is. -/
  role : Piece.Role
  /-- Its characters. -/
  text : List Char
deriving DecidableEq, Repr, Inhabited

namespace Dialect

variable (d : Dialect)

/-- The stretches that a text is cut into. -/
def stretches : List Char → List Stretch
  | [] => []
  | c :: cs => ⟨(d.piece c cs).role, (d.piece c cs).text⟩ :: stretches (d.piece c cs).rest
termination_by cs => cs.length
decreasing_by exact piece_rest_length_lt ..

/-- The stretches of a text that are no gaps. -/
def solid (cs : List Char) : List Stretch := (d.stretches cs).filter (·.role ≠ .gap)

@[simp]
theorem stretches_nil : d.stretches [] = [] := by rw [stretches]

theorem stretches_cons (c : Char) (cs : List Char) :
    d.stretches (c :: cs) =
      ⟨(d.piece c cs).role, (d.piece c cs).text⟩ :: d.stretches (d.piece c cs).rest := by
  rw [stretches]

@[simp]
theorem solid_nil : d.solid [] = [] := by simp [solid]

variable {d}

theorem solid_gap {c : Char} {cs : List Char} (h : (d.piece c cs).role = .gap) :
    d.solid (c :: cs) = d.solid (d.piece c cs).rest := by
  rw [solid, stretches_cons, List.filter_cons_of_neg (by simp [h]), solid]

theorem solid_cons {c : Char} {cs : List Char} (h : (d.piece c cs).role ≠ .gap) :
    d.solid (c :: cs) =
      ⟨(d.piece c cs).role, (d.piece c cs).text⟩ :: d.solid (d.piece c cs).rest := by
  rw [solid, stretches_cons, List.filter_cons_of_pos (by simp [h]), solid]

/-- A blank in front of a text adds nothing to it, also where it joins a gap that is there. -/
theorem solid_blank {c : Char} (h : d.isBlank c = true) (cs : List Char) :
    d.solid (c :: cs) = d.solid cs := by
  rw [solid_gap (by rw [piece_blank h]; rfl), piece_blank h]
  show d.solid (cs.dropWhile d.isBlank) = d.solid cs
  cases cs with
  | nil => rfl
  | cons b bs =>
    by_cases hb : d.isBlank b = true
    · rw [List.dropWhile_cons_of_pos hb, solid_gap (by rw [piece_blank hb]; rfl), piece_blank hb]
      rfl
    · rw [List.dropWhile_cons_of_neg hb]

/-- Blanks in front of a text add nothing to it. -/
theorem solid_blanks {blanks : List Char} (h : ∀ c ∈ blanks, d.isBlank c = true) (cs : List Char) :
    d.solid (blanks ++ cs) = d.solid cs := by
  induction blanks with
  | nil => rfl
  | cons c blanks ih =>
    rw [List.cons_append, solid_blank (h c List.mem_cons_self)]
    exact ih fun x hx => h x (List.mem_cons_of_mem _ hx)

end Dialect

/-! ## Lexemes and their texts -/

/-- The lexeme of kind `k` with the text `text` behind the text `front`. -/
def Lexeme.behind (front : List Char) (k : Kind) (text : List Char) : Lexeme :=
  ⟨k, Position.origin.past front, Position.origin.past (front ++ text)⟩

theorem Position.origin_past_offset (cs : List Char) :
    (Position.origin.past cs).offset = (String.ofList cs).utf8ByteSize := by
  rw [past_offset]
  exact Nat.zero_add _

/-- The span of a lexeme cuts its text out of the whole text. -/
theorem Lexeme.text?_behind (front : List Char) (k : Kind) (text rest : List Char) :
    (Lexeme.behind front k text).token.text? (String.ofList (front ++ text ++ rest)) =
      some (String.ofList text) := by
  have h := Token.slice?_append (String.ofList front) (String.ofList text) (String.ofList rest)
  rw [← String.utf8ByteSize_append, ← String.ofList_append, ← String.ofList_append] at h
  rw [Token.text?, token, behind, Position.origin_past_offset, Position.origin_past_offset]
  exact h

/-- What a stretch says, if it is a token: its kind and its text. -/
def Stretch.reading (s : Stretch) : Option (Kind × Option String) :=
  match s.role with
  | .token k => some (k, some (String.ofList s.text))
  | .gap | .fault => none

/-- What an item of a stream says, if it is a token: its kind and the text that its span cuts out of
the source. -/
def Lexeme.reading (source : String) (x : Lexeme) : Kind × Option String :=
  (x.kind, x.token.text? source)

namespace Scan

/-- What the first piece of a text behind `front` contributes to the items of its scan. -/
theorem items_ofChars_cons (d : Dialect) (front : List Char) (c : Char) (cs : List Char) :
    (Scan.ofChars d (Position.origin.past front) (c :: cs)).items =
      (item? (Position.origin.past front) (Position.origin.past (front ++ (d.piece c cs).text))
        (d.piece c cs).role).toList ++
        (Scan.ofChars d (Position.origin.past (front ++ (d.piece c cs).text))
          (d.piece c cs).rest).items := by
  rw [ofChars_cons, Position.past_append]

/-- The items of a scan are the stretches that are no gaps, in order, whatever stands behind the
text. -/
theorem map_reading_items_append (d : Dialect) (front cs after : List Char) :
    (Scan.ofChars d (Position.origin.past front) cs).items.map
        (fun item => item.toOption.map (Lexeme.reading (String.ofList (front ++ cs ++ after)))) =
      (d.solid cs).map Stretch.reading := by
  fun_induction d.stretches cs generalizing front with
  | case1 => simp
  | case2 c cs ih =>
    have htext : front ++ (d.piece c cs).text ++ (d.piece c cs).rest = front ++ c :: cs := by
      rw [List.append_assoc, d.piece_text_append_rest]
    have hrest := ih (front ++ (d.piece c cs).text)
    rw [htext] at hrest
    rw [items_ofChars_cons, List.map_append, hrest]
    cases hr : (d.piece c cs).role with
    | gap => rw [Dialect.solid_gap hr]; rfl
    | fault => rw [Dialect.solid_cons (by simp [hr]), hr]; rfl
    | token k =>
      have ht := Lexeme.text?_behind front k (d.piece c cs).text ((d.piece c cs).rest ++ after)
      rw [← List.append_assoc, htext] at ht
      rw [Dialect.solid_cons (by simp [hr]), hr, List.map_cons, Stretch.reading, ← ht]
      rfl

/-- The items of a scan are the stretches that are no gaps, in order. -/
theorem map_reading_items (d : Dialect) (front cs : List Char) :
    (Scan.ofChars d (Position.origin.past front) cs).items.map
        (fun item => item.toOption.map (Lexeme.reading (String.ofList (front ++ cs)))) =
      (d.solid cs).map Stretch.reading := by
  have h := map_reading_items_append d front cs []
  rw [List.append_nil] at h
  exact h

/-- A blank only moves what follows, also where it joins a gap that is there. -/
theorem ofChars_blank {d : Dialect} {c : Char} (h : d.isBlank c = true) (p : Position)
    (cs : List Char) : Scan.ofChars d p (c :: cs) = Scan.ofChars d (p.next c) cs := by
  have hgap : ∀ b bs, d.isBlank b = true → ∀ q, Scan.ofChars d q (b :: bs) =
      Scan.ofChars d (q.past (b :: bs.takeWhile d.isBlank)) (bs.dropWhile d.isBlank) := by
    intro b bs hb q
    rw [ofChars_cons, Dialect.piece_blank hb]
    rfl
  rw [hgap c cs h, Position.past_cons]
  cases cs with
  | nil => rfl
  | cons b bs =>
    by_cases hb : d.isBlank b = true
    · rw [List.takeWhile_cons_of_pos hb, List.dropWhile_cons_of_pos hb, hgap b bs hb]
    · rw [List.takeWhile_cons_of_neg hb, List.dropWhile_cons_of_neg hb]
      rfl

/-- Blanks only move what follows. -/
theorem ofChars_blanks {d : Dialect} {blanks : List Char} (h : ∀ c ∈ blanks, d.isBlank c = true)
    (p : Position) (cs : List Char) :
    Scan.ofChars d p (blanks ++ cs) = Scan.ofChars d (p.past blanks) cs := by
  induction blanks generalizing p with
  | nil => rfl
  | cons c blanks ih =>
    rw [List.cons_append, ofChars_blank (h c List.mem_cons_self),
      ih fun x hx => h x (List.mem_cons_of_mem _ hx)]
    rfl

theorem finish_ofChars (d : Dialect) (p : Position) (cs : List Char) :
    (Scan.ofChars d p cs).finish = p.past cs := by
  fun_induction d.stretches cs generalizing p with
  | case1 => simp
  | case2 c cs ih =>
    rw [ofChars_cons]
    simp only [ih]
    rw [← Position.past_append, d.piece_text_append_rest]

/-- Each item of a scan takes at least one character. -/
theorem length_items_le (d : Dialect) (p : Position) (cs : List Char) :
    (Scan.ofChars d p cs).items.length ≤ cs.length := by
  fun_induction d.stretches cs generalizing p with
  | case1 => simp
  | case2 c cs ih =>
    have hrest := ih (p.past (d.piece c cs).text)
    have hlt := d.piece_rest_length_lt c cs
    have hone : (item? p (p.past (d.piece c cs).text) (d.piece c cs).role).toList.length ≤ 1 := by
      cases item? p (p.past (d.piece c cs).text) (d.piece c cs).role <;> simp
    rw [ofChars_cons]
    simp only [List.length_append, List.length_cons] at hlt ⊢
    omega

/-- A lexeme of a scan lies in the text where its positions say, and matches its pattern. -/
theorem mem_items {d : Dialect} {front cs : List Char} {x : Lexeme}
    (h : .ok x ∈ (Scan.ofChars d (Position.origin.past front) cs).items) :
    ∃ before text after, cs = before ++ text ++ after ∧ Spells x.kind text ∧
      x = .behind (front ++ before) x.kind text := by
  fun_induction d.stretches cs generalizing front with
  | case1 => simp at h
  | case2 c cs ih =>
    rw [items_ofChars_cons] at h
    rcases List.mem_append.1 h with h | h
    · cases hr : (d.piece c cs).role with
      | gap => simp [hr, item?] at h
      | fault => simp [hr, item?] at h
      | token k =>
        obtain rfl : x = .behind front k (d.piece c cs).text := by
          simpa [hr, item?, Lexeme.behind] using h
        refine ⟨[], (d.piece c cs).text, (d.piece c cs).rest, ?_, d.spells_piece c cs hr, ?_⟩
        · rw [List.nil_append, d.piece_text_append_rest]
        · rw [List.append_nil]
          rfl
    · obtain ⟨before, text, after, hc, hs, hx⟩ := ih h
      refine ⟨(d.piece c cs).text ++ before, text, after, ?_, hs, ?_⟩
      · rw [← d.piece_text_append_rest c cs, hc]
        simp
      · rw [← List.append_assoc]
        exact hx

end Scan

end OffsideBench
