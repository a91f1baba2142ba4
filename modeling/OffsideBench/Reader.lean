import OffsideBench.Layout

/-!
# Token readers

A reader gives the tokens of a text one at a time, as one of three streams: the dented form with its
block structure, the same form with plain line breaks, and the braced form. Reading on behind the
end of the text gives `eof` again.

`Reader.drain` reads up to the first fault or to the end of the text; counting, writing with braces
and benchmarking are functions of what it gives.

Main statements: `Reader.next_weight_lt`, by which draining ends, and `Reader.drain_eq`, which says
what one call of `next` contributes to it.
-/

namespace OffsideBench

open Token (Kind)

/-- A reader in front of the rest of a stream. -/
inductive Reader where
  /-- The dented form with block structure. -/
  | structured (s : Layout)
  /-- The dented form with plain line breaks. -/
  | lines (s : Layout)
  /-- The braced form. -/
  | braced (s : Scan)
deriving Repr, Inhabited

/-- What reading up to the first fault or to the end of the text gives. -/
structure Drain where
  /-- The tokens in front of the fault or of the end. -/
  tokens : List Token
  /-- The end of the text, or the fault. -/
  finish : Except LexError Token
deriving Repr, Inhabited

/-- The number of tokens in front of the end of the text. -/
def Drain.count (d : Drain) : Except LexError Nat := d.finish.map fun _ => d.tokens.length

/-- The kinds of the tokens in front of the fault or of the end. -/
def Drain.kinds (d : Drain) : List Kind := d.tokens.map Token.kind

namespace Reader

/-- Reads the next token. -/
def next : Reader → Except LexError Token × Reader
  | structured s => (s.next.1, structured s.next.2)
  | lines s => (s.nextRaw.1, lines s.nextRaw.2)
  | braced s => (s.next.1.map Lexeme.token, braced s.next.2)

/-- A bound on the tokens still to come. -/
def weight : Reader → Nat
  | structured s => s.weight
  | lines s => s.scan.items.length + s.lookahead.toList.length
  | braced s => s.items.length

theorem scan_next_length {s s' : Scan} {x : Lexeme} (h : s.next = (.ok x, s'))
    (hx : x.kind ≠ .eof) : s'.items.length < s.items.length := by
  unfold Scan.next at h
  split at h
  · simp only [Prod.mk.injEq, Except.ok.injEq] at h
    exact absurd (h.1 ▸ rfl) hx
  · rename_i hi
    obtain ⟨-, rfl⟩ := by simpa using h
    simp [hi]

/-- Each token read before the end of the text lowers the weight of the reader. -/
theorem next_weight_lt {r r' : Reader} {t : Token} (h : r.next = (.ok t, r'))
    (ht : t.kind ≠ .eof) : r'.weight < r.weight := by
  cases r with
  | structured s =>
    obtain ⟨hs, rfl⟩ := by simpa [next] using h
    have h' : s.next = (.ok t, s.next.2) := Prod.ext hs rfl
    exact Layout.next_weight_lt h' ht
  | lines s =>
    obtain ⟨hs, rfl⟩ := by simpa [next] using h
    unfold Layout.nextRaw Layout.read at hs
    cases hl : s.lookahead with
    | some x => simp [weight, Layout.nextRaw, Layout.read, hl]
    | none =>
      simp only [hl] at hs
      cases hr : s.scan.next.1 with
      | error e => simp [hr, Except.map] at hs
      | ok x =>
        simp only [hr, Except.map, Except.ok.injEq] at hs
        have h' : s.scan.next = (.ok x, s.scan.next.2) := Prod.ext hr rfl
        have := scan_next_length h' (hs.symm ▸ ht : x.token.kind ≠ .eof)
        simpa [weight, Layout.nextRaw, Layout.read, hl] using this
  | braced s =>
    obtain ⟨hs, rfl⟩ := by simpa [next] using h
    cases hr : s.next.1 with
    | error e => simp [hr, Except.map] at hs
    | ok x =>
      simp only [hr, Except.map, Except.ok.injEq] at hs
      have h' : s.next = (.ok x, s.next.2) := Prod.ext hr rfl
      exact scan_next_length h' (hs.symm ▸ ht : x.token.kind ≠ .eof)

/-- Reads on to the first fault or to the end of the text, behind the tokens already `seen`. -/
def drainAfter (r : Reader) (seen : Array Token) : Drain :=
  match h : r.next with
  | (.error e, _) => ⟨seen.toList, .error e⟩
  | (.ok t, r') =>
    if ht : t.kind = .eof then
      ⟨seen.toList, .ok t⟩
    else
      have := next_weight_lt h ht
      drainAfter r' (seen.push t)
termination_by r.weight

/-- Reads up to the first fault or to the end of the text. -/
def drain (r : Reader) : Drain := r.drainAfter #[]

theorem drainAfter_eq (r : Reader) (seen : Array Token) :
    r.drainAfter seen = ⟨seen.toList ++ r.drain.tokens, r.drain.finish⟩ := by
  unfold drain
  generalize hn : r.weight = n
  induction n using Nat.strongRecOn generalizing r seen with
  | ind n ih =>
    rw [drainAfter, drainAfter]
    split
    · simp
    · rename_i t r' h
      by_cases ht : t.kind = .eof
      · simp [ht]
      · have hlt := hn ▸ next_weight_lt h ht
        simp only [dif_neg ht]
        rw [ih _ hlt _ (seen.push t) rfl, ih _ hlt _ (#[].push t) rfl]
        simp

/-- What one call of `next` contributes to draining. -/
theorem drain_eq (r : Reader) :
    r.drain =
      match r.next with
      | (.error e, _) => ⟨[], .error e⟩
      | (.ok t, r') =>
        if t.kind = .eof then ⟨[], .ok t⟩
        else ⟨t :: r'.drain.tokens, r'.drain.finish⟩ := by
  conv => lhs; unfold drain
  rw [drainAfter]
  split
  · rename_i h
    simp [h]
  · rename_i t r' h
    by_cases ht : t.kind = .eof
    · simp [h, ht]
    · simp [h, ht, drainAfter_eq]

end Reader

/-! ## Metering -/

/-- A reader that counts how often it was asked. -/
structure Metered where
  /-- The reader that is asked. -/
  reader : Reader
  /-- The number of calls so far, faults and ends of the text included. -/
  calls : Nat := 0
deriving Repr, Inhabited

/-- Reads the next token and counts the call. -/
def Metered.next (m : Metered) : Except LexError Token × Metered :=
  (m.reader.next.1, ⟨m.reader.next.2, m.calls + 1⟩)

end OffsideBench
