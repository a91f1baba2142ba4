import OffsideBench.Proofs.Stretches
import OffsideBench.Variant

/-!
# Draining a stream

Reading a plain stream to its end, or to its first fault, gives what stands in the stream:
`Drain.ofItems` says it by recursion on the items, and the readers of the two plain streams do
exactly that (`Reader.drain_braced`, `Reader.drain_lines`).
-/

namespace OffsideBench

open Token (Kind)

/-- What is read of the items of a stream that ends at `finish`. -/
def Drain.ofItems (finish : Position) : List (Except LexError Lexeme) → Drain
  | [] => ⟨[], .ok (Lexeme.eof finish).token⟩
  | .error e :: _ => ⟨[], .error e⟩
  | .ok x :: items => ⟨x.token :: (ofItems finish items).tokens, (ofItems finish items).finish⟩

/-- A stream in which no fault stands is a row of lexemes. -/
theorem exists_eq_map_ok {items : List (Except LexError Lexeme)}
    (h : ∀ e, .error e ∉ items) : ∃ xs : List Lexeme, items = xs.map .ok := by
  induction items with
  | nil => exact ⟨[], rfl⟩
  | cons item items ih =>
    obtain ⟨xs, rfl⟩ := ih fun e he => h e (List.mem_cons_of_mem _ he)
    cases item with
    | error e => exact absurd List.mem_cons_self (h e)
    | ok x => exact ⟨x :: xs, rfl⟩

namespace Drain

theorem count_eq_ok_iff {d : Drain} {n : Nat} :
    d.count = .ok n ↔ (∃ e, d.finish = .ok e) ∧ d.tokens.length = n := by
  rw [count]
  cases d.finish <;> simp [Except.map]

theorem count_eq_error_iff {d : Drain} {fault : LexError} :
    d.count = .error fault ↔ d.finish = .error fault := by
  rw [count]
  cases d.finish <;> simp [Except.map]

variable {finish : Position}

/-- A stream without faults is read as it stands. -/
theorem ofItems_map_ok (xs : List Lexeme) :
    ofItems finish (xs.map .ok) = ⟨xs.map Lexeme.token, .ok (Lexeme.eof finish).token⟩ := by
  induction xs with
  | nil => rfl
  | cons x xs ih => rw [List.map_cons, ofItems, ih, List.map_cons]

/-- A stream that is read to its end has no faults. -/
theorem eq_map_ok_of_finish {items : List (Except LexError Lexeme)} {t : Token}
    (h : (ofItems finish items).finish = .ok t) : ∃ xs : List Lexeme, items = xs.map .ok := by
  fun_induction ofItems finish items with
  | case1 => exact ⟨[], rfl⟩
  | case2 => cases h
  | case3 x items ih =>
    obtain ⟨xs, rfl⟩ := ih h
    exact ⟨x :: xs, rfl⟩

/-- What is read of a stream stands in it. -/
theorem mem_ofItems {items : List (Except LexError Lexeme)} {t : Token}
    (h : t ∈ (ofItems finish items).tokens) : ∃ x, .ok x ∈ items ∧ x.token = t := by
  fun_induction ofItems finish items with
  | case1 => simp at h
  | case2 => simp at h
  | case3 x items ih =>
    rcases List.mem_cons.1 h with rfl | h
    · exact ⟨x, List.mem_cons_self, rfl⟩
    · obtain ⟨y, hy, e⟩ := ih h
      exact ⟨y, List.mem_cons_of_mem _ hy, e⟩

end Drain

namespace Reader

variable {r r' : Reader} {t : Token}

theorem drain_of_token (h : r.next = (.ok t, r')) (ht : t.kind ≠ .eof) :
    r.drain = ⟨t :: r'.drain.tokens, r'.drain.finish⟩ := by
  rw [drain_eq, h]
  exact if_neg ht

theorem drain_of_eof (h : r.next = (.ok t, r')) (ht : t.kind = .eof) : r.drain = ⟨[], .ok t⟩ := by
  rw [drain_eq, h]
  exact if_pos ht

theorem drain_of_error {e : LexError} (h : r.next = (.error e, r')) :
    r.drain = ⟨[], .error e⟩ := by rw [drain_eq, h]

theorem drain_braced (s : Scan) (h : ∀ x, .ok x ∈ s.items → x.kind ≠ .eof) :
    (Reader.braced s).drain = Drain.ofItems s.finish s.items := by
  obtain ⟨items, finish⟩ := s
  induction items with
  | nil => exact drain_of_eof rfl rfl
  | cons item items ih =>
    cases item with
    | error e => exact drain_of_error rfl
    | ok x =>
      have hr := ih fun y hy => h y (List.mem_cons_of_mem _ hy)
      have hx : x.token.kind ≠ .eof := h x List.mem_cons_self
      rw [drain_of_token rfl hx, Drain.ofItems, ← hr]
      rfl

theorem drain_lines (s : Layout) (hl : s.lookahead = none)
    (h : ∀ x, .ok x ∈ s.scan.items → x.kind ≠ .eof) :
    (Reader.lines s).drain = Drain.ofItems s.scan.finish s.scan.items := by
  obtain ⟨⟨items, finish⟩, lookahead, pending, widths, last⟩ := s
  obtain rfl : lookahead = none := hl
  induction items with
  | nil => exact drain_of_eof rfl rfl
  | cons item items ih =>
    cases item with
    | error e => exact drain_of_error rfl
    | ok x =>
      have hr := ih fun y hy => h y (List.mem_cons_of_mem _ hy)
      have hx : x.token.kind ≠ .eof := h x List.mem_cons_self
      rw [drain_of_token rfl hx, Drain.ofItems, ← hr]
      rfl

/-- What is drained in front of the end of the text is not that end. -/
theorem kind_ne_eof_of_mem_drain (h : t ∈ r.drain.tokens) :
    t.kind ≠ .eof := by
  generalize hn : r.weight = n
  induction n using Nat.strongRecOn generalizing r with
  | ind n ih =>
    rw [drain_eq] at h
    split at h
    · simp at h
    · rename_i u r' hr
      by_cases hu : u.kind = .eof
      · simp [hu] at h
      · rw [if_neg hu] at h
        rcases List.mem_cons.1 h with rfl | h
        · exact hu
        · exact ih _ (hn ▸ next_weight_lt hr hu) h rfl

/-- What ends a drain without a fault is the end of the text. -/
theorem kind_of_drain_finish (h : r.drain.finish = .ok t) : t.kind = .eof := by
  generalize hn : r.weight = n
  induction n using Nat.strongRecOn generalizing r with
  | ind n ih =>
    rw [drain_eq] at h
    split at h
    · cases h
    · rename_i u r' hr
      by_cases hu : u.kind = .eof
      · rw [if_pos hu] at h
        cases h
        exact hu
      · rw [if_neg hu] at h
        exact ih _ (hn ▸ next_weight_lt hr hu) h rfl

end Reader

/-- The stream of a text holds no tokens that stand for no text. -/
theorem Scan.kind_of_mem_items {d : Dialect} {source : String} {x : Lexeme}
    (h : .ok x ∈ (Scan.ofText d source).items) : x.kind.isContent = true ∨ x.kind = .newline := by
  obtain ⟨_, _, _, _, hs, _⟩ := @Scan.mem_items d [] source.toList x h
  exact hs.isContent_or_newline

theorem Scan.kind_of_items {d : Dialect} {source : String} {xs : List Lexeme}
    (h : (Scan.ofText d source).items = xs.map .ok) :
    ∀ x ∈ xs, x.kind.isContent = true ∨ x.kind = .newline := by
  intro x hx
  have hmem : .ok x ∈ (Scan.ofText d source).items := by
    rw [h]
    exact List.mem_map_of_mem hx
  exact Scan.kind_of_mem_items hmem

/-- What ends the stream of a text is the end of that text. -/
theorem Scan.eof_ofText (d : Dialect) (source : String) :
    (Lexeme.eof (Scan.ofText d source).finish).token = Token.empty .eof source.utf8ByteSize := by
  rw [Scan.ofText, Scan.finish_ofChars]
  show Token.empty .eof (Position.origin.past source.toList).offset = _
  rw [Position.origin_past_offset, String.ofList_toList]

/-- Reading a text meets faults of one sort only. -/
theorem Scan.error_of_mem_items {d : Dialect} {source : String} {e : LexError}
    (h : .error e ∈ (Scan.ofText d source).items) : ∃ offset, e = .unrecognized offset := by
  unfold Scan.ofText at h
  generalize Position.origin = p at h
  generalize source.toList = cs at h
  fun_induction d.stretches cs generalizing p with
  | case1 => simp at h
  | case2 c cs ih =>
    rw [Scan.ofChars_cons] at h
    rcases List.mem_append.1 h with h | h
    · cases hr : (d.piece c cs).role with
      | gap => simp [hr, item?] at h
      | token k => simp [hr, item?] at h
      | fault => exact ⟨p.offset, by simpa [hr, item?] using h⟩
    · exact ih _ h

theorem Scan.kind_ne_eof {d : Dialect} {source : String} {x : Lexeme}
    (h : .ok x ∈ (Scan.ofText d source).items) : x.kind ≠ .eof := by
  rcases Scan.kind_of_mem_items h with hx | hx
  · exact Kind.ne_of_isContent hx rfl
  · rw [hx]
    decide

namespace Variant

/-- The stream with plain line breaks holds the items of the text, up to the first fault. -/
theorem drain_rawDented (source : String) :
    rawDented.drain source =
      Drain.ofItems (Scan.ofText .dented source).finish (Scan.ofText .dented source).items :=
  Reader.drain_lines (.ofText source) rfl fun _ hx => Scan.kind_ne_eof hx

/-- The braced stream holds the items of the text, up to the first fault. -/
theorem drain_braced (source : String) :
    braced.drain source =
      Drain.ofItems (Scan.ofText .braced source).finish (Scan.ofText .braced source).items :=
  Reader.drain_braced (.ofText .braced source) fun _ hx => Scan.kind_ne_eof hx

end Variant

end OffsideBench
