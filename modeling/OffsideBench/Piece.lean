import OffsideBench.Token.Kind

/-!
# Pieces of a text

What stands at the front of a text, in each of the two written forms of a program. In the *dented*
form a line break is a token, read together with the blanks behind it and with all further line
breaks that follow; in the *braced* form line breaks are blanks, and `{`, `}` and `;` are tokens.
Words, numbers, strings, operators and comments are the same in both.

`Dialect.piece` takes the longest piece: a run of blanks, a comment, a token, or a piece that starts
no token. The last is a single character, except that a quote without a closing quote on its line
takes the rest of that line with it.

Main statements: a piece and what follows it make up the text (`piece_text_append_rest`), and a
piece is never empty (`piece_text_ne_nil`), so reading pieces ends.
-/

namespace OffsideBench

open Token (Kind)

/-- The written forms of a program. -/
inductive Dialect where
  /-- Blocks are shown by indentation. -/
  | dented
  /-- Blocks are shown by braces. -/
  | braced
deriving DecidableEq, Repr, Inhabited

/-- What a piece of text is. -/
inductive Piece.Role where
  /-- Blanks or a comment: no token. -/
  | gap
  /-- The text of a token. -/
  | token (kind : Kind)
  /-- Text that starts no token. -/
  | fault
deriving DecidableEq, Repr, Inhabited

/-- The piece at the front of a text and what follows it. -/
structure Piece where
  /-- What the piece is. -/
  role : Piece.Role
  /-- The characters of the piece. -/
  text : List Char
  /-- The text behind the piece. -/
  rest : List Char
deriving DecidableEq, Repr, Inhabited

/-! ## Character classes -/

/-- The first character of a line break. -/
def isBreak (c : Char) : Bool := c == '\n' || c == '\r'

/-- The blanks of the first columns of a line, which measure its indentation. -/
def isIndentBlank (c : Char) : Bool := c == ' ' || c == '\t'

/-- A character that may start a word: an ASCII letter or an underscore. -/
def isWordStart (c : Char) : Bool := c.isAlpha || c == '_'

/-- A character that may continue a word. -/
def isWordPart (c : Char) : Bool := isWordStart c || c.isDigit

/-- A character that may stand between the quotes of a string. -/
def isStringPart (c : Char) : Bool := c != '"' && !isBreak c

/-- A character that separates tokens without being one. -/
def Dialect.isBlank (d : Dialect) (c : Char) : Bool :=
  isIndentBlank c || c == '\x0c' || (d == .braced && isBreak c)

/-- The tokens of both forms that are a single character and start no longer token. -/
def operator? : Char → Option Kind
  | ':' => some .colon
  | ',' => some .comma
  | '(' => some .lparen
  | ')' => some .rparen
  | '+' => some .plus
  | '-' => some .minus
  | '*' => some .star
  | '/' => some .slash
  | '<' => some .lt
  | '>' => some .gt
  | _ => none

/-- The tokens that only the braced form has. -/
def brace? : Char → Option Kind
  | '{' => some .lbrace
  | '}' => some .rbrace
  | ';' => some .semi
  | _ => none

/-- The tokens of a form that are a single character. -/
def Dialect.punctuation? (d : Dialect) (c : Char) : Option Kind :=
  match d with
  | .dented => operator? c
  | .braced => operator? c <|> brace? c

/-! ## Pieces -/

namespace Piece

/-- The piece made of `c` and the characters behind it that satisfy `p`. -/
def run (role : Role) (p : Char → Bool) (c : Char) (cs : List Char) : Piece :=
  ⟨role, c :: cs.takeWhile p, cs.dropWhile p⟩

/-- The piece made of a word. -/
def word (c : Char) (cs : List Char) : Piece :=
  ⟨.token (Kind.ofWord (c :: cs.takeWhile isWordPart)), c :: cs.takeWhile isWordPart,
    cs.dropWhile isWordPart⟩

/-- The piece behind an opening quote: a string if a closing quote stands on the same line. -/
def quoted (cs : List Char) : Piece :=
  match cs.dropWhile isStringPart with
  | '"' :: rest => ⟨.token .str, '"' :: cs.takeWhile isStringPart ++ ['"'], rest⟩
  | rest => ⟨.fault, '"' :: cs.takeWhile isStringPart, rest⟩

/-- The piece behind an equals sign: a comparison if a second one follows. -/
def equals : List Char → Piece
  | '=' :: rest => ⟨.token .eqEq, ['=', '='], rest⟩
  | rest => ⟨.token .assign, ['='], rest⟩

/-- The longest run of line breaks and indentation blanks at the front of a text. A carriage return
belongs to it only in front of a line feed. -/
def breakRun : List Char → List Char
  | '\r' :: '\n' :: cs => '\r' :: '\n' :: breakRun cs
  | c :: cs => if c = '\n' ∨ isIndentBlank c then c :: breakRun cs else []
  | [] => []

/-- The piece made of a line break `text` and all line breaks and indentation behind it. -/
def newline (text cs : List Char) : Piece :=
  ⟨.token .newline, text ++ breakRun cs, cs.drop (breakRun cs).length⟩

end Piece

/-- The piece at the front of the text `c :: cs`. -/
def Dialect.piece (d : Dialect) (c : Char) (cs : List Char) : Piece :=
  if d.isBlank c then .run .gap d.isBlank c cs
  else if c = '#' then .run .gap (!isBreak ·) c cs
  else if isWordStart c then .word c cs
  else if c.isDigit then .run (.token .int) Char.isDigit c cs
  else if c = '"' then .quoted cs
  else if c = '=' then .equals cs
  else if c = '\n' then .newline ['\n'] cs
  else if c = '\r' then
    match cs with
    | '\n' :: cs => .newline ['\r', '\n'] cs
    | cs => ⟨.fault, ['\r'], cs⟩
  else
    match d.punctuation? c with
    | some k => ⟨.token k, [c], cs⟩
    | none => ⟨.fault, [c], cs⟩

/-! ## A piece and the rest make up the text -/

namespace Piece

theorem breakRun_append_drop (cs : List Char) :
    breakRun cs ++ cs.drop (breakRun cs).length = cs := by
  fun_induction breakRun cs with
  | case1 cs ih => simp [ih]
  | case2 c cs _ _ ih => simp [ih]
  | case3 c cs _ _ => simp
  | case4 => rfl

/-- A piece of the text `c :: cs` is made of its first characters, at least one of them. -/
def IsFront (p : Piece) (c : Char) (cs : List Char) : Prop :=
  p.text ≠ [] ∧ p.text ++ p.rest = c :: cs

theorem run_isFront (role : Role) (p : Char → Bool) (c : Char) (cs : List Char) :
    (run role p c cs).IsFront c cs := by simp [run, IsFront]

theorem word_isFront (c : Char) (cs : List Char) : (word c cs).IsFront c cs := by
  simp [word, IsFront]

theorem quoted_isFront (cs : List Char) : (quoted cs).IsFront '"' cs := by
  have h := List.takeWhile_append_dropWhile (p := isStringPart) (l := cs)
  unfold quoted IsFront
  split
  · rename_i rest e
    rw [e] at h
    simpa using h
  · simp

theorem equals_isFront (cs : List Char) : (equals cs).IsFront '=' cs := by
  unfold equals IsFront
  split <;> simp

theorem newline_isFront (c : Char) (as bs : List Char) :
    (newline (c :: as) bs).IsFront c (as ++ bs) := by
  simp [newline, IsFront, breakRun_append_drop]

theorem role_quoted (cs : List Char) :
    (quoted cs).role = .token .str ∨ (quoted cs).role = .fault := by
  unfold quoted
  split
  · exact .inl rfl
  · exact .inr rfl

theorem role_equals (cs : List Char) :
    (equals cs).role = .token .eqEq ∨ (equals cs).role = .token .assign := by
  unfold equals
  split
  · exact .inl rfl
  · exact .inr rfl

theorem single_isFront (role : Role) (c : Char) (cs : List Char) :
    (⟨role, [c], cs⟩ : Piece).IsFront c cs := by simp [IsFront]

end Piece

namespace Dialect

/-- The pieces that can stand at the front of the text `c :: cs`. -/
inductive Begins (d : Dialect) (c : Char) (cs : List Char) : Piece → Prop where
  | blank (hb : d.isBlank c = true) : Begins d c cs (.run .gap d.isBlank c cs)
  | comment (hc : c = '#') : Begins d c cs (.run .gap (!isBreak ·) c cs)
  | word (hw : isWordStart c = true) : Begins d c cs (.word c cs)
  | int (hd : c.isDigit = true) : Begins d c cs (.run (.token .int) Char.isDigit c cs)
  | quoted (hq : c = '"') : Begins d c cs (.quoted cs)
  | equals (he : c = '=') : Begins d c cs (.equals cs)
  | lineFeed (hn : c = '\n') : Begins d c cs (.newline ['\n'] cs)
  | lineBreak {rest : List Char} (hr : c = '\r') (hcs : cs = '\n' :: rest) :
      Begins d c cs (.newline ['\r', '\n'] rest)
  | lone (hr : c = '\r') (hb : ¬ d.isBlank c = true) (hcs : cs.head? ≠ some '\n') :
      Begins d c cs ⟨.fault, ['\r'], cs⟩
  | mark {k : Kind} (hk : d.punctuation? c = some k) : Begins d c cs ⟨.token k, [c], cs⟩
  | unknown (hfault : ∀ rest, d.piece c rest = ⟨.fault, [c], rest⟩) :
      Begins d c cs ⟨.fault, [c], cs⟩

/-- What `piece` can find. Proofs about pieces go by these cases, not by the tests of `piece`. -/
theorem begins (d : Dialect) (c : Char) (cs : List Char) : d.Begins c cs (d.piece c cs) := by
  unfold piece
  split
  · exact .blank ‹_›
  rename_i hb
  split
  · exact .comment ‹_›
  rename_i hc
  split
  · exact .word ‹_›
  rename_i hw
  split
  · exact .int ‹_›
  rename_i hd
  split
  · exact .quoted ‹_›
  rename_i hq
  split
  · exact .equals ‹_›
  rename_i he
  split
  · exact .lineFeed ‹_›
  rename_i hn
  split
  · rename_i hr
    split
    · exact .lineBreak hr rfl
    · rename_i hcs
      refine .lone hr hb fun hhead => ?_
      obtain ⟨rest, rfl⟩ := List.head?_eq_some_iff.1 hhead
      exact hcs rest rfl
  rename_i hr
  split
  · exact .mark ‹_›
  · rename_i hnone
    refine .unknown fun rest => ?_
    unfold piece
    rw [if_neg hb, if_neg hc, if_neg hw, if_neg hd, if_neg hq, if_neg he, if_neg hn, if_neg hr,
      hnone]

/-- Only blanks and comments are gaps. -/
theorem piece_of_gap {d : Dialect} {c : Char} {cs : List Char} (h : (d.piece c cs).role = .gap) :
    d.isBlank c = true ∧ d.piece c cs = .run .gap d.isBlank c cs ∨
      c = '#' ∧ d.piece c cs = .run .gap (!isBreak ·) c cs := by
  have hbegins := d.begins c cs
  generalize d.piece c cs = p at h hbegins ⊢
  cases hbegins with
  | blank hb => exact .inl ⟨hb, rfl⟩
  | comment hc => exact .inr ⟨hc, rfl⟩
  | quoted =>
    rcases Piece.role_quoted cs with hr | hr <;> rw [hr] at h <;> cases h
  | equals =>
    rcases Piece.role_equals cs with hr | hr <;> rw [hr] at h <;> cases h
  | _ => cases h

theorem piece_isFront (d : Dialect) (c : Char) (cs : List Char) :
    (d.piece c cs).IsFront c cs := by
  have hbegins := d.begins c cs
  generalize d.piece c cs = p at hbegins ⊢
  cases hbegins with
  | blank => exact Piece.run_isFront ..
  | comment => exact Piece.run_isFront ..
  | word => exact Piece.word_isFront ..
  | int => exact Piece.run_isFront ..
  | quoted hq => exact hq ▸ Piece.quoted_isFront cs
  | equals he => exact he ▸ Piece.equals_isFront cs
  | lineFeed hn => exact hn ▸ Piece.newline_isFront '\n' [] cs
  | lineBreak hr hcs =>
    subst hr hcs
    exact Piece.newline_isFront '\r' ['\n'] _
  | lone hr => exact hr ▸ Piece.single_isFront ..
  | mark => exact Piece.single_isFront ..
  | unknown => exact Piece.single_isFront ..

/-- A piece and what follows it make up the text. -/
theorem piece_text_append_rest (d : Dialect) (c : Char) (cs : List Char) :
    (d.piece c cs).text ++ (d.piece c cs).rest = c :: cs := (piece_isFront d c cs).2

/-- A piece holds at least one character. -/
theorem piece_text_ne_nil (d : Dialect) (c : Char) (cs : List Char) :
    (d.piece c cs).text ≠ [] := (piece_isFront d c cs).1

/-- What follows a piece is shorter than the text. -/
theorem piece_rest_length_lt (d : Dialect) (c : Char) (cs : List Char) :
    (d.piece c cs).rest.length < (c :: cs).length := by
  rw [← piece_text_append_rest d c cs, List.length_append]
  have := List.length_pos_iff.2 (piece_text_ne_nil d c cs)
  omega

end Dialect

end OffsideBench
