import OffsideBench.Layout

/-!
# One step of the layout machine

When nothing waits to be handed out, the machine reads over all line breaks in front of it to the
first item behind them; what it then does depends on that item and on the last of the line breaks
alone (`Layout.next_of_leads`). Whether the first item was read ahead makes no difference: only the
stream counts, which `Layout.stream` puts together.
-/

namespace OffsideBench

open Token (Kind)

/-- The stream `items`, which ends at `finish`, leads over the line breaks `newlines` to `item`, and
then goes on with `rest`. -/
inductive Leads (finish : Position) :
    List (Except LexError Lexeme) → List Lexeme → Except LexError Lexeme →
      List (Except LexError Lexeme) → Prop where
  /-- Nothing is left to read. -/
  | done : Leads finish [] [] (.ok (.eof finish)) []
  /-- A fault comes first. -/
  | fault (e : LexError) (rest : List (Except LexError Lexeme)) :
      Leads finish (.error e :: rest) [] (.error e) rest
  /-- A lexeme that is no line break comes first. -/
  | lexeme {x : Lexeme} (hx : x.kind ≠ .newline) (rest : List (Except LexError Lexeme)) :
      Leads finish (.ok x :: rest) [] (.ok x) rest
  /-- A line break comes first. -/
  | newline {n : Lexeme} (hn : n.kind = .newline) {items newlines item rest}
      (h : Leads finish items newlines item rest) :
      Leads finish (.ok n :: items) (n :: newlines) item rest

namespace Leads

variable {finish : Position}

/-- Every stream leads somewhere. -/
theorem exists_leads (finish : Position) (items : List (Except LexError Lexeme)) :
    ∃ newlines item rest, Leads finish items newlines item rest := by
  induction items with
  | nil => exact ⟨_, _, _, .done⟩
  | cons i items ih =>
    cases i with
    | error e => exact ⟨_, _, _, .fault e items⟩
    | ok x =>
      by_cases hx : x.kind = .newline
      · obtain ⟨newlines, item, rest, h⟩ := ih
        exact ⟨_, _, _, .newline hx h⟩
      · exact ⟨_, _, _, .lexeme hx items⟩

variable {items rest : List (Except LexError Lexeme)} {newlines : List Lexeme}
  {item : Except LexError Lexeme}

/-- The line breaks that are read over are line breaks. -/
theorem kind_newlines (h : Leads finish items newlines item rest) :
    ∀ n ∈ newlines, n.kind = .newline := by
  induction h with
  | newline hn _ ih =>
    intro m hm
    rcases List.mem_cons.1 hm with rfl | hm
    · exact hn
    · exact ih m hm
  | _ => simp

/-- Behind the line breaks comes no further one. -/
theorem kind_item (h : Leads finish items newlines item rest) :
    ∀ x, item = .ok x → x.kind ≠ .newline := by
  induction h with
  | done =>
    rintro x ⟨⟩ e
    cases e
  | fault =>
    rintro x ⟨⟩
  | lexeme hx =>
    rintro x ⟨⟩
    exact hx
  | newline _ _ ih => exact ih

/-- What is read over stands in the stream. Only the end of the text need not. -/
theorem eq_append (h : Leads finish items newlines item rest) :
    items = newlines.map .ok ++ item :: rest ∨
      items = newlines.map .ok ∧ item = .ok (.eof finish) ∧ rest = [] := by
  induction h with
  | done => exact .inr ⟨rfl, rfl, rfl⟩
  | fault e rest => exact .inl rfl
  | lexeme hx rest => exact .inl rfl
  | newline hn _ ih =>
    rcases ih with rfl | ⟨rfl, rfl, rfl⟩
    · exact .inl rfl
    · exact .inr ⟨rfl, rfl, rfl⟩

end Leads

namespace Layout

/-- The stream that is still to be read, what was read ahead included. -/
def stream (s : Layout) : List (Except LexError Lexeme) :=
  s.lookahead.toList.map .ok ++ s.scan.items

/-- What the machine does with a lexeme `x` that is no line break and that it met behind `newline?`,
the last of the line breaks in front of it. -/
def resume (s : Layout) (newline? : Option Lexeme) (x : Lexeme) :
    Except LexError Token × Layout :=
  match newline? with
  | none => s.place x
  | some newline =>
    if s.last = none ∨ x.kind = .eof then s.place x
    else { s with lookahead := some x }.startLine newline

/-- What the machine does with the first item behind line breaks. -/
def meet (s : Layout) (newline? : Option Lexeme) :
    Except LexError Lexeme → Except LexError Token × Layout
  | .error e => (.error e, s)
  | .ok x => s.resume newline? x

/-- The machine with the items `rest` left to read. -/
def goOn (s : Layout) (rest : List (Except LexError Lexeme)) : Layout :=
  { s with lookahead := none, scan.items := rest }

section Leads

variable {s : Layout} {newlines : List Lexeme} {item : Except LexError Lexeme}
  {items rest : List (Except LexError Lexeme)}

theorem joinNewlines_of_leads {finish : Position} (h : Leads finish items newlines item rest)
    (newline : Lexeme) :
    joinNewlines finish newline items =
      (item.map fun x => (newlines.getLast?.getD newline, x), rest) := by
  induction h generalizing newline with
  | done => rfl
  | fault e rest => rfl
  | lexeme hx rest => exact if_neg hx
  | @newline n hn items newlines item rest h ih =>
    rw [joinNewlines, if_pos hn, ih n]
    cases newlines with
    | nil => rfl
    | cons m newlines => rw [List.getLast?_cons_cons, List.getLast?_cons]; rfl

theorem afterNewline_of_leads (hl : s.lookahead = none)
    (h : Leads s.scan.finish s.scan.items newlines item rest) (n : Lexeme) :
    s.afterNewline n = (s.goOn rest).meet (some (newlines.getLast?.getD n)) item := by
  obtain ⟨scan, lookahead, pending, widths, last⟩ := s
  obtain rfl : lookahead = none := hl
  rw [afterNewline, joinNewlines_of_leads h n]
  cases item <;> rfl

/-- A machine with nothing to hand out reads over the line breaks in front of it and then acts on
the item behind them. -/
theorem next_of_leads (hp : s.pending = [])
    (hl : ∀ x, s.lookahead = some x → x.kind ≠ .newline)
    (h : Leads s.scan.finish s.stream newlines item rest) :
    s.next = (s.goOn rest).meet newlines.getLast? item := by
  obtain ⟨⟨items, finish⟩, lookahead, pending, widths, last⟩ := s
  obtain rfl : pending = [] := hp
  cases lookahead with
  | some x =>
    -- The line breaks in front of a lexeme that was read ahead are used up.
    have hx : x.kind ≠ .newline := hl x rfl
    cases h with
    | lexeme => exact if_neg hx
    | newline hn => exact absurd hn hx
  | none =>
    change Leads finish items newlines item rest at h
    cases h with
    | done => rfl
    | fault => rfl
    | lexeme hx => exact if_neg hx
    | @newline n hn items newlines item rest h =>
      rw [List.getLast?_cons]
      refine (if_pos hn).trans ?_
      exact afterNewline_of_leads rfl h n

end Leads

end Layout

end OffsideBench
