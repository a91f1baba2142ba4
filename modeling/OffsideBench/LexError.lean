/-!
# Lexing errors

The three ways in which a text fails to be a token stream. `unrecognized` comes from reading
characters; the other two come from the widths of indentation and arise only in the indented form.
-/

namespace OffsideBench

/-- Why a token could not be read. Offsets count bytes of the lexed text. -/
inductive LexError where
  /-- The character at `offset` starts no token. -/
  | unrecognized (offset : Nat)
  /-- The line that starts in front of `offset` returns to a width that no open block has. -/
  | inconsistentDedent (offset : Nat) (width : UInt32)
  /-- The first line with code, which starts at `offset`, is indented. -/
  | unexpectedIndent (offset : Nat) (width : UInt32)
deriving DecidableEq, Repr, Inhabited

/-- The wording of a lexing error. -/
def LexError.message : LexError → String
  | unrecognized offset => s!"unrecognized input at byte {offset}"
  | inconsistentDedent offset width =>
    s!"indentation width {width} at byte {offset} does not match any enclosing block"
  | unexpectedIndent offset width => s!"first line at byte {offset} is indented to width {width}"

end OffsideBench
