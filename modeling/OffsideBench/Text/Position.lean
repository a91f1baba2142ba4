/-!
# Positions in a text

A position is a place between two characters of a text. Besides the number of bytes in front of it
it knows where its line starts and how wide the line is up to there, with tab stops every eight
columns. Indentation is measured by reading off the width of a position, on the first line of code
and on every later one.

Widths are 32-bit and wrap around; a line has to hold 2^32 columns before that shows.

Main statements: `Position.past_append` (moving past two texts is moving past one after the other)
and `Position.past_offset` (the offset grows by the UTF-8 length of the text).
-/

namespace OffsideBench

/-- The distance between two tab stops. -/
def tabWidth : UInt32 := 8

/-- The width of a line after one more character: a tab leads to the next tab stop, any other
character adds one column for each of its bytes. -/
def widen (width : UInt32) (c : Char) : UInt32 :=
  if c = '\t' then (width / tabWidth + 1) * tabWidth else width + c.utf8Size.toUInt32

/-- The width of a text without line feeds that starts at the first column. -/
def lineWidth (cs : List Char) : UInt32 := cs.foldl widen 0

/-- A place between two characters of a text. -/
structure Position where
  /-- The number of bytes in front of the position. -/
  offset : Nat
  /-- The offset behind the last line feed in front of the position. -/
  lineStart : Nat
  /-- The width of the line between `lineStart` and the position. -/
  width : UInt32
deriving DecidableEq, Repr, Inhabited

namespace Position

/-- The position in front of a text. -/
def origin : Position := ⟨0, 0, 0⟩

/-- The position behind the character `c`. -/
def next (p : Position) (c : Char) : Position :=
  if c = '\n' then
    ⟨p.offset + 1, p.offset + 1, 0⟩
  else
    ⟨p.offset + c.utf8Size, p.lineStart, widen p.width c⟩

/-- The position behind the text `cs`. -/
def past (p : Position) (cs : List Char) : Position := cs.foldl next p

@[simp]
theorem past_nil (p : Position) : p.past [] = p := rfl

@[simp]
theorem past_cons (p : Position) (c : Char) (cs : List Char) :
    p.past (c :: cs) = (p.next c).past cs := rfl

theorem past_append (p : Position) (as bs : List Char) :
    p.past (as ++ bs) = (p.past as).past bs := List.foldl_append

theorem next_offset (p : Position) (c : Char) : (p.next c).offset = p.offset + c.utf8Size := by
  by_cases h : c = '\n'
  · subst h; rfl
  · simp [next, h]

private theorem utf8ByteSize_cons (c : Char) (cs : List Char) :
    (String.ofList (c :: cs)).utf8ByteSize = c.utf8Size + (String.ofList cs).utf8ByteSize := by
  rw [← List.singleton_append, String.ofList_append, ← String.singleton_eq_ofList,
    String.utf8ByteSize_append, String.utf8ByteSize_singleton]

/-- The offset behind a text counts its UTF-8 bytes. -/
theorem past_offset (p : Position) (cs : List Char) :
    (p.past cs).offset = p.offset + (String.ofList cs).utf8ByteSize := by
  induction cs generalizing p with
  | nil => simp
  | cons c cs ih => rw [past_cons, ih, next_offset, utf8ByteSize_cons, Nat.add_assoc]

end Position

end OffsideBench
