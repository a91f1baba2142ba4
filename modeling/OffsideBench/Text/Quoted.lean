import OffsideBench.Text.Hidden

/-!
# Quoted text

How names and values are shown in messages: between double quotes, with a backslash in front of
quotes and backslashes, the usual letters for line breaks, tabs and the null character, and the code
of every other character that has no glyph of its own.
-/

namespace OffsideBench.Text

/-- A character as it is written between quotes. -/
def quoteChar (c : Char) : List Char :=
  match c with
  | '\x00' => ['\\', '0']
  | '\t' => ['\\', 't']
  | '\r' => ['\\', 'r']
  | '\n' => ['\\', 'n']
  | '"' => ['\\', '"']
  | '\\' => ['\\', '\\']
  | c => if isHidden c then '\\' :: 'u' :: '\x7b' :: (Nat.toDigits 16 c.toNat ++ ['\x7d']) else [c]

/-- A text in double quotes. -/
def quote (s : String) : String := String.ofList ('"' :: (s.toList.flatMap quoteChar ++ ['"']))

end OffsideBench.Text
