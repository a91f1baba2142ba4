import OffsideBench.LexError
import OffsideBench.Piece
import OffsideBench.Text.Position
import OffsideBench.Token.Basic

/-!
# Lexemes

The stream of tokens and faults that a text spells, before any thought of block structure. A lexeme
is a token that still knows the positions of its two ends, and with them the width of the line up to
each end: that is all that indentation needs to know about the text.

Reading goes on behind a fault, so the stream is decided by the text alone. A reader of the stream
holds what is left of it (`Scan`); past its end it reads `eof` again and again.

Main statement: `Scan.ofChars_cons` says what the first piece of a text contributes to its stream.
-/

namespace OffsideBench

open Token (Kind)

/-- A token and the positions of its ends. -/
structure Lexeme where
  /-- What the token is. -/
  kind : Kind
  /-- The position in front of the token. -/
  start : Position
  /-- The position behind the token. -/
  stop : Position
deriving DecidableEq, Repr, Inhabited

/-- The token of a lexeme. -/
def Lexeme.token (x : Lexeme) : Token := ⟨x.kind, x.start.offset, x.stop.offset⟩

/-- The end of a text. -/
def Lexeme.eof (p : Position) : Lexeme := ⟨.eof, p, p⟩

/-- What is left to read of the stream of a text. -/
structure Scan where
  /-- The lexemes and faults ahead, in order. -/
  items : List (Except LexError Lexeme)
  /-- The position behind the whole text. -/
  finish : Position
deriving Repr, Inhabited

namespace Scan

/-- What a piece between two positions contributes to the stream. -/
def item? (start stop : Position) : Piece.Role → Option (Except LexError Lexeme)
  | .gap => none
  | .token kind => some (.ok ⟨kind, start, stop⟩)
  | .fault => some (.error (.unrecognized start.offset))

/-- The items of the text `cs`, which starts at `p`, behind the items already `seen`. -/
def collect (d : Dialect) (p : Position) (cs : List Char)
    (seen : Array (Except LexError Lexeme)) : Scan :=
  match cs with
  | [] => ⟨seen.toList, p⟩
  | c :: cs =>
    let piece := d.piece c cs
    let stop := p.past piece.text
    match item? p stop piece.role with
    | none => collect d stop piece.rest seen
    | some item => collect d stop piece.rest (seen.push item)
termination_by cs.length
decreasing_by all_goals exact Dialect.piece_rest_length_lt ..

/-- The stream of the text `cs`, which starts at `p`. -/
def ofChars (d : Dialect) (p : Position) (cs : List Char) : Scan := collect d p cs #[]

/-- The stream of a whole text. -/
def ofText (d : Dialect) (source : String) : Scan := .ofChars d .origin source.toList

/-- Reads the next lexeme or fault. -/
def next (s : Scan) : Except LexError Lexeme × Scan :=
  match s.items with
  | [] => (.ok (.eof s.finish), s)
  | item :: items => (item, { s with items })

/-! ## The stream of a text, piece by piece -/

theorem collect_eq (d : Dialect) (p : Position) (cs : List Char)
    (seen : Array (Except LexError Lexeme)) :
    collect d p cs seen =
      ⟨seen.toList ++ (Scan.ofChars d p cs).items, (Scan.ofChars d p cs).finish⟩ := by
  unfold Scan.ofChars
  generalize hn : cs.length = n
  induction n using Nat.strongRecOn generalizing p cs seen with
  | ind n ih =>
    cases cs with
    | nil => simp [collect]
    | cons c cs =>
      have hlt := hn ▸ Dialect.piece_rest_length_lt d c cs
      rw [collect, collect]
      cases item? p (p.past (d.piece c cs).text) (d.piece c cs).role with
      | none => exact ih _ hlt _ _ _ rfl
      | some item =>
        simp only
        rw [ih _ hlt _ _ (seen.push item) rfl, ih _ hlt _ _ (#[].push item) rfl]
        simp

@[simp]
theorem ofChars_nil (d : Dialect) (p : Position) : Scan.ofChars d p [] = ⟨[], p⟩ := by
  simp [Scan.ofChars, collect]

/-- The first piece of a text contributes its item, if it has one, in front of the rest. -/
theorem ofChars_cons (d : Dialect) (p : Position) (c : Char) (cs : List Char) :
    Scan.ofChars d p (c :: cs) =
      let piece := d.piece c cs
      let tail := Scan.ofChars d (p.past piece.text) piece.rest
      ⟨(item? p (p.past piece.text) piece.role).toList ++ tail.items, tail.finish⟩ := by
  conv => lhs; unfold Scan.ofChars
  rw [collect]
  cases h : item? p (p.past (d.piece c cs).text) (d.piece c cs).role with
  | none => simp [collect_eq, h]
  | some item => simp [collect_eq, h]

end Scan

end OffsideBench
