import OffsideBench.Reader

/-!
# Writing blocks with braces

Turns a token stream into text of the braced form: the tokens that open a block, close a block and
end a line are written as `{`, `}` and `;`, and all others are copied. Each piece is followed by
something that keeps it apart from the next, so reading the text back gives one token for each.
-/

namespace OffsideBench

open Token (Kind)

/-- How the tokens of a stream are written in the braced form. -/
structure Braces where
  /-- The kind of the tokens that open a block. -/
  blockStart : Kind
  /-- The kind of the tokens that close a block. -/
  blockEnd : Kind
  /-- The kind of the tokens that end a line. -/
  lineEnd : Kind
  /-- What is written behind `{`, `}` and `;`. -/
  separator : String
deriving DecidableEq, Repr, Inhabited

namespace Braces

/-- Block structure by indentation, one structural token to a line. -/
def ofIndentation : Braces := ⟨.indent, .dedent, .newline, "\n"⟩

/-- The mark that is written for a kind of token, if it is not copied. -/
def mark? (b : Braces) (k : Kind) : Option String :=
  if k = b.blockStart then some "\x7b"
  else if k = b.blockEnd then some "\x7d"
  else if k = b.lineEnd then some ";"
  else none

/-- What is written for a token with the given text. -/
def piece (b : Braces) (k : Kind) (text : String) : String :=
  match b.mark? k with
  | some mark => mark ++ b.separator
  | none => text ++ " "

/-- Writes the tokens of `d`, copied from `source`, or gives the fault that ended them. -/
def write (b : Braces) (source : String) (d : Drain) : Except LexError String :=
  d.finish.map fun _ =>
    String.join (d.tokens.map fun t => b.piece t.kind (t.textIn source))

/-- Whether each token of `d` that is copied denotes a piece of `source`. Only then is `write` the
text of the stream. -/
def fits (b : Braces) (source : String) (d : Drain) : Bool :=
  d.tokens.all fun t => (b.mark? t.kind).isSome || t.fits source

end Braces

end OffsideBench
