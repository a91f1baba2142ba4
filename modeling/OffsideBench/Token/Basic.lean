import OffsideBench.Token.Kind

/-!
# Tokens

A token is a kind and a span of bytes in the text it was read from; it does not carry that text.
Offsets count UTF-8 bytes, so a span denotes a piece of a text only when it lies inside the text and
both ends fall between two characters. `Token.text?` cuts the piece out and says when there is none.

The tokens of block structure stand for no text of their own: `indent` keeps the span of the line
break that it replaces, while `dedent`, `eof` and a line end added at the end of the text are empty.

Main statement: the piece between two texts is found again by the byte lengths of what stands before
it and of the piece itself (`Token.slice?_append`).
-/

namespace OffsideBench

/-- A token: its kind and the bytes it covers. -/
structure Token where
  /-- What the token is. -/
  kind : Token.Kind
  /-- The offset of its first byte. -/
  start : Nat
  /-- The offset behind its last byte. -/
  stop : Nat
deriving DecidableEq, Repr, Inhabited

namespace Token

/-- A token that covers no text. -/
def empty (kind : Kind) (offset : Nat) : Token := ⟨kind, offset, offset⟩

/-- The piece of `source` between two byte offsets, if they are in order and both fall between
characters. -/
def slice? (source : String) (start stop : Nat) : Option String :=
  if h : start ≤ stop ∧ String.Pos.Raw.IsValid source ⟨start⟩ ∧
      String.Pos.Raw.IsValid source ⟨stop⟩ then
    some (String.extract (source.pos ⟨start⟩ h.2.1) (source.pos ⟨stop⟩ h.2.2))
  else
    none

/-- The text of a token, when its span is a piece of `source`. -/
def text? (t : Token) (source : String) : Option String := slice? source t.start t.stop

/-- The text of a token, empty when its span is no piece of `source`. -/
def textIn (t : Token) (source : String) : String := (t.text? source).getD ""

/-- Whether the span of a token is a piece of `source`. -/
def fits (t : Token) (source : String) : Bool := (t.text? source).isSome

/-! ## Pieces of a text -/

/-- A piece is found by the byte lengths of what stands before it and of the piece itself. -/
theorem slice?_append (a b c : String) :
    slice? (a ++ b ++ c) a.utf8ByteSize (a.utf8ByteSize + b.utf8ByteSize) = some b := by
  have hv : a.utf8ByteSize ≤ a.utf8ByteSize + b.utf8ByteSize ∧
      String.Pos.Raw.IsValid (a ++ b ++ c) ⟨a.utf8ByteSize⟩ ∧
      String.Pos.Raw.IsValid (a ++ b ++ c) ⟨a.utf8ByteSize + b.utf8ByteSize⟩ := by
    refine ⟨by omega, ?_, ?_⟩
    · exact String.Pos.Raw.isValid_iff_exists_append.2 ⟨a, b ++ c, by rw [String.append_assoc], rfl⟩
    · exact String.Pos.Raw.isValid_iff_exists_append.2
        ⟨a ++ b, c, rfl, by simp [String.Pos.Raw.ext_iff]⟩
  rw [slice?, dif_pos hv]
  refine congrArg some (String.toByteArray_inj.1 ?_)
  have h := ByteArray.extract_append_size_add (a := a.toByteArray)
    (b := b.toByteArray ++ c.toByteArray) (i := 0) (j := b.utf8ByteSize)
  rw [String.size_toByteArray, Nat.add_zero] at h
  rw [String.toByteArray_extract]
  simp only [String.toByteArray_append, ByteArray.append_assoc, String.offset_pos]
  rw [h, ByteArray.extract_append_eq_left (String.size_toByteArray).symm]

/-- An empty token covers the empty piece, wherever its offset falls between two characters. -/
theorem text?_empty (kind : Kind) (a c : String) :
    (empty kind a.utf8ByteSize).text? (a ++ c) = some "" := by
  have h := slice?_append a "" c
  simpa [text?, empty] using h

end Token

end OffsideBench
