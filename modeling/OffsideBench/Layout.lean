import OffsideBench.Lexeme

/-!
# Layout

The offside rule as a state machine over the stream of the dented form. Each line with code is
compared with the blocks that are open: a wider line opens a block, a narrower one closes all blocks
that are wider than it, and must then agree with the innermost block left. Blank lines and comment
lines have no say, and the first line of code has to start at the first column.

A machine hands out tokens one at a time in two ways that may be mixed freely. `Layout.next` is the
stream with structure: `indent` replaces the line break in front of a wider line, `dedent` follows
the line break in front of a narrower one, and the end of the text ends the last line and closes all
blocks. `Layout.nextRaw` passes the underlying stream on as it is. Both go on after a fault, from
the state that the fault left behind.

Main statement: `Layout.next_weight_lt`, each token handed out by `next` before `eof` lowers the
weight of the machine, so that reading to the end is well-founded recursion.
-/

namespace OffsideBench

open Token (Kind)

/-- The state of the layout machine. -/
structure Layout where
  /-- The stream still to be read. -/
  scan : Scan
  /-- A lexeme read ahead, behind the line breaks that were joined into one. -/
  lookahead : Option Lexeme := none
  /-- Structural tokens that wait to be handed out. -/
  pending : List Token := []
  /-- The widths of the open blocks, innermost first. The first column, to which a line may return as
  well, is not listed: no width is below zero, so no line closes it, and neither does the end of the
  text. -/
  widths : List UInt32 := []
  /-- The kind of the last token that `next` handed out. -/
  last : Option Kind := none
deriving Repr, Inhabited

namespace Layout

/-- The machine in front of a text. -/
def ofText (source : String) : Layout := { scan := .ofText .dented source }

/-- The width of the innermost open block; outside of all blocks it is that of the first column. -/
def top (s : Layout) : UInt32 := s.widths.headD 0

/-- Reads the underlying stream, the lexeme read ahead first. -/
def read (s : Layout) : Except LexError Lexeme × Layout :=
  match s.lookahead with
  | some x => (.ok x, { s with lookahead := none })
  | none => (s.scan.next.1, { s with scan := s.scan.next.2 })

/-- The next token of the stream without structure. -/
def nextRaw (s : Layout) : Except LexError Token × Layout := (s.read.1.map Lexeme.token, s.read.2)

/-- Hands out the token `t` and keeps `pending` for later. -/
def handOut (s : Layout) (t : Token) (pending : List Token) : Except LexError Token × Layout :=
  (.ok t, { s with pending, last := some t.kind })

/-- Joins `newline` with the line breaks that follow it: gives the last of them and the lexeme
behind it, or the fault that was met first, and what is left of the stream `items` that ends at
`finish`. -/
def joinNewlines (finish : Position) (newline : Lexeme) :
    List (Except LexError Lexeme) →
      Except LexError (Lexeme × Lexeme) × List (Except LexError Lexeme)
  | [] => (.ok (newline, .eof finish), [])
  | .error e :: items => (.error e, items)
  | .ok x :: items =>
    if x.kind = .newline then joinNewlines finish x items else (.ok (newline, x), items)

/-- The closings for blocks that are wider than `width`, given the widths of the open blocks. -/
def closeTo (width : UInt32) : List UInt32 → List UInt32
  | [] => []
  | w :: ws => if width < w then closeTo width ws else w :: ws

/-- Starts a line of code behind the line break `newline`. -/
def startLine (s : Layout) (newline : Lexeme) : Except LexError Token × Layout :=
  let width := newline.stop.width
  if s.top < width then
    { s with widths := width :: s.widths }.handOut { newline.token with kind := .indent } []
  else
    let widths := closeTo width s.widths
    let dedents := List.replicate (s.widths.length - widths.length)
      (Token.empty .dedent newline.stop.offset)
    let s := { s with widths }
    if width = s.top then
      s.handOut newline.token dedents
    else
      (.error (.inconsistentDedent newline.stop.offset width),
        { s with pending := newline.token :: dedents })

/-- Whether a token of kind `k`, or the lack of one, leaves no line to be ended. -/
def endsLine : Option Kind → Bool
  | none | some .newline | some .indent | some .dedent | some .eof => true
  | some _ => false

/-- Ends the last line and closes all blocks at the end of the text. -/
def close (s : Layout) (eof : Lexeme) : Except LexError Token × Layout :=
  let dedent := Token.empty .dedent eof.start.offset
  let s' := { s with widths := [] }
  if endsLine s.last then
    match s.widths with
    | [] => s'.handOut eof.token []
    | _ :: ws => s'.handOut dedent (List.replicate ws.length dedent ++ [eof.token])
  else
    s'.handOut (Token.empty .newline eof.start.offset)
      (List.replicate s.widths.length dedent ++ [eof.token])

/-- Hands out a lexeme that is no line break, or ends the stream. The first token of all must stand
at the first column. -/
def place (s : Layout) (x : Lexeme) : Except LexError Token × Layout :=
  if x.kind = .eof then
    s.close x
  else if s.last = none ∧ 0 < x.start.width then
    (.error (.unexpectedIndent x.start.lineStart x.start.width), s)
  else
    s.handOut x.token []

/-- Goes on behind a line break: line breaks in front of the first line and behind the last carry no
structure. -/
def afterNewline (s : Layout) (newline : Lexeme) : Except LexError Token × Layout :=
  match joinNewlines s.scan.finish newline s.scan.items with
  | (.error e, items) => (.error e, { s with scan.items := items })
  | (.ok (newline, x), items) =>
    let s := { s with scan.items := items }
    if s.last = none ∨ x.kind = .eof then
      s.place x
    else
      { s with lookahead := some x }.startLine newline

/-- The next token of the stream with structure. -/
def next (s : Layout) : Except LexError Token × Layout :=
  match s.pending with
  | t :: pending => s.handOut t pending
  | [] =>
    match s.read with
    | (.error e, s) => (.error e, s)
    | (.ok x, s) => if x.kind = .newline then s.afterNewline x else s.place x

/-! ## Reading ends -/

/-- The number of tokens other than the end of the text. -/
def structural (ts : List Token) : Nat := ts.countP (·.kind ≠ .eof)

/-- What a line that is still to be ended weighs. -/
def openLine (last : Option Kind) : Nat := if endsLine last then 0 else 2

/-- A bound on the tokens still to come: what is left to read counts most, since a line break can
open a block, which will have to be closed again. -/
def weight (s : Layout) : Nat :=
  4 * (s.scan.items.length + s.lookahead.toList.length) + 3 * s.widths.length +
    3 * structural s.pending + openLine s.last

theorem openLine_le (last : Option Kind) : openLine last ≤ 2 := by unfold openLine; split <;> omega

@[simp]
theorem structural_nil : structural [] = 0 := rfl

theorem structural_cons {t : Token} (ht : t.kind ≠ .eof) (ts : List Token) :
    structural (t :: ts) = structural ts + 1 := List.countP_cons_of_pos (by simpa using ht)

theorem structural_append (as bs : List Token) :
    structural (as ++ bs) = structural as + structural bs := List.countP_append

theorem structural_eof {t : Token} (ht : t.kind = .eof) : structural [t] = 0 := by
  simp [structural, ht]

@[simp]
theorem structural_dedents (n offset : Nat) :
    structural (List.replicate n (Token.empty .dedent offset)) = n := by
  simp only [structural, List.countP_replicate, Token.empty]
  rfl

theorem closeTo_length_le (width : UInt32) (ws : List UInt32) :
    (closeTo width ws).length ≤ ws.length := by
  fun_induction closeTo width ws with
  | case1 => exact Nat.le_refl _
  | case2 w ws _ ih => simp only [List.length_cons]; omega
  | case3 => exact Nat.le_refl _

/-- Joining line breaks leaves no more of the stream than there was, and less when a lexeme other
than the end of the text follows. -/
theorem joinNewlines_length {finish : Position} {newline newline' x : Lexeme}
    {items items' : List (Except LexError Lexeme)}
    (h : joinNewlines finish newline items = (.ok (newline', x), items')) :
    items'.length ≤ items.length ∧ (x.kind ≠ .eof → items'.length < items.length) := by
  fun_induction joinNewlines finish newline items with
  | case1 newline =>
    obtain ⟨⟨-, rfl⟩, rfl⟩ := by simpa using h
    simp [Lexeme.eof]
  | case2 newline e items => simp at h
  | case3 newline x' items _ ih => have := ih h; simp only [List.length_cons]; omega
  | case4 newline x' items _ =>
    obtain ⟨⟨-, rfl⟩, rfl⟩ := by simpa using h
    simp

theorem handOut_weight_lt {s s' : Layout} {t t' : Token} {pending : List Token} {n : Nat}
    (h : s.handOut t' pending = (.ok t, s'))
    (hn : 4 * (s.scan.items.length + s.lookahead.toList.length) + 3 * s.widths.length +
      3 * structural pending + openLine (some t'.kind) < n) :
    s'.weight < n := by
  obtain ⟨rfl, rfl⟩ := by simpa [handOut] using h
  exact hn

theorem close_weight_lt {s s' : Layout} {x : Lexeme} {t : Token} (hx : x.kind = .eof)
    (h : s.close x = (.ok t, s')) (ht : t.kind ≠ .eof) : s'.weight < s.weight := by
  have he : structural [x.token] = 0 := structural_eof hx
  unfold close at h
  by_cases hl : endsLine s.last
  · rw [if_pos hl] at h
    cases hw : s.widths with
    | nil =>
      simp only [hw, handOut, Prod.mk.injEq, Except.ok.injEq] at h
      exact absurd (h.1 ▸ hx) ht
    | cons w ws =>
      simp only [hw] at h
      refine handOut_weight_lt h ?_
      have : openLine (some (Token.empty .dedent x.start.offset).kind) = 0 := rfl
      simp only [weight, hw, structural_append, structural_dedents, he, List.length_cons,
        List.length_nil]
      omega
  · rw [if_neg hl] at h
    refine handOut_weight_lt h ?_
    have : openLine (some (Token.empty .newline x.start.offset).kind) = 0 := rfl
    have : openLine s.last = 2 := if_neg hl
    simp only [weight, structural_append, structural_dedents, he, List.length_nil]
    omega

theorem place_weight_lt {s s' : Layout} {x : Lexeme} {t : Token}
    (h : s.place x = (.ok t, s')) (ht : t.kind ≠ .eof) (hp : s.pending = []) :
    s'.weight < s.weight + (if x.kind = .eof then 0 else 4) := by
  unfold place at h
  by_cases hx : x.kind = .eof
  · rw [if_pos hx] at h
    simpa [hx] using close_weight_lt hx h ht
  · rw [if_neg hx] at h
    split at h
    · simp at h
    · refine handOut_weight_lt h ?_
      have := openLine_le (some x.token.kind)
      simp only [weight, hx, hp, structural_nil, if_false]
      omega

theorem startLine_weight_lt {s s' : Layout} {newline : Lexeme} {t : Token}
    (h : s.startLine newline = (.ok t, s')) (hk : newline.kind = .newline) :
    s'.weight < s.weight + 4 := by
  unfold startLine at h
  simp only at h
  split at h
  · refine handOut_weight_lt h ?_
    have : openLine (some .indent) = 0 := rfl
    simp only [weight, structural_nil, List.length_cons]
    omega
  · split at h
    · refine handOut_weight_lt h ?_
      have := closeTo_length_le newline.stop.width s.widths
      have : openLine (some newline.token.kind) = 0 := by simp [Lexeme.token, hk]; rfl
      simp only [weight, structural_dedents]
      omega
    · simp at h

theorem joinNewlines_kind {finish : Position} {newline newline' x : Lexeme}
    {items items' : List (Except LexError Lexeme)} (hk : newline.kind = .newline)
    (h : joinNewlines finish newline items = (.ok (newline', x), items')) :
    newline'.kind = .newline ∧ x.kind ≠ .newline := by
  fun_induction joinNewlines finish newline items with
  | case1 newline =>
    obtain ⟨⟨rfl, rfl⟩, -⟩ := by simpa using h
    exact ⟨hk, by simp [Lexeme.eof]⟩
  | case2 newline e items => simp at h
  | case3 newline x' items hx ih => exact ih hx h
  | case4 newline x' items hx =>
    obtain ⟨⟨rfl, rfl⟩, -⟩ := by simpa using h
    exact ⟨hk, hx⟩

theorem afterNewline_weight_lt {s s' : Layout} {newline : Lexeme} {t : Token}
    (h : s.afterNewline newline = (.ok t, s')) (ht : t.kind ≠ .eof)
    (hk : newline.kind = .newline) (hp : s.pending = []) (hl : s.lookahead = none) :
    s'.weight < s.weight + 4 := by
  unfold afterNewline at h
  split at h
  · simp at h
  · rename_i newline' x items hj
    have hlen := joinNewlines_length hj
    have hkind := joinNewlines_kind hk hj
    simp only at h
    split at h
    · have := place_weight_lt h ht hp
      simp only [weight] at this ⊢
      split at this
      · omega
      · rename_i hx
        have := hlen.2 hx
        omega
    · rename_i hn
      have hx : x.kind ≠ .eof := fun e => hn (.inr e)
      have := startLine_weight_lt h hkind.1
      have := hlen.2 hx
      simp only [weight, hl, Option.toList_none, Option.toList_some, List.length_nil,
        List.length_singleton] at *
      omega

/-- Each token handed out before the end of the text lowers the weight of the machine. -/
theorem next_weight_lt {s s' : Layout} {t : Token} (h : s.next = (.ok t, s'))
    (ht : t.kind ≠ .eof) : s'.weight < s.weight := by
  unfold next at h
  split at h
  · rename_i t' pending hp
    have e : t' = t := by simpa [handOut] using congrArg Prod.fst h
    subst e
    refine handOut_weight_lt h ?_
    have := openLine_le (some t'.kind)
    simp only [weight, hp, structural_cons ht]
    omega
  · rename_i hp
    split at h
    · simp at h
    · rename_i x s₁ hr
      have hs₁ : s₁.pending = [] ∧ s₁.lookahead = none ∧
          s₁.weight + (if x.kind = .eof then 0 else 4) ≤ s.weight := by
        unfold read at hr
        split at hr
        · obtain ⟨rfl, rfl⟩ := by simpa using hr
          refine ⟨hp, rfl, ?_⟩
          simp only [weight, *, Option.toList_none, Option.toList_some, List.length_nil,
            List.length_singleton]
          split <;> omega
        · rename_i hl
          unfold Scan.next at hr
          cases hi : s.scan.items with
          | nil =>
            simp only [hi, Prod.mk.injEq, Except.ok.injEq] at hr
            obtain ⟨rfl, rfl⟩ := hr
            exact ⟨hp, hl, by simp [weight, Lexeme.eof]⟩
          | cons item items =>
            simp only [hi, Prod.mk.injEq] at hr
            obtain ⟨rfl, rfl⟩ := hr
            refine ⟨hp, hl, ?_⟩
            simp only [weight, hi, List.length_cons]
            split <;> omega
      split at h
      · rename_i hk
        have := afterNewline_weight_lt h ht hk hs₁.1 hs₁.2.1
        have := hs₁.2.2
        simp only [hk] at this
        simp at this
        omega
      · have := place_weight_lt h ht hs₁.1
        omega

end Layout

end OffsideBench
