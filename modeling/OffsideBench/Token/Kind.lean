/-!
# Token kinds

The vocabulary shared by every token stream of the language. The indented form uses `newline`,
`indent` and `dedent` for its structure; the braced form uses `lbrace`, `rbrace` and `semi` in their
place; all other kinds, the *content* kinds and `eof`, are common to both.

The order of the constructors is part of the contract: `Kind.code` is what a benchmark run mixes
into its result, so inserting a kind anywhere but at the end changes every recorded run.
-/

namespace OffsideBench.Token

/-- The kinds of tokens. -/
inductive Kind where
  /-- An identifier that is no keyword. -/
  | ident
  /-- A run of decimal digits. -/
  | int
  /-- A string literal, quotes included. -/
  | str
  /-- The keyword that opens a definition. -/
  | defWord
  /-- The keyword that opens a conditional. -/
  | ifWord
  /-- The keyword that opens an alternative. -/
  | elseWord
  /-- The keyword that opens a loop. -/
  | whileWord
  /-- The keyword that returns a value. -/
  | returnWord
  | colon
  | comma
  | lparen
  | rparen
  | assign
  | eqEq
  | plus
  | minus
  | star
  | slash
  | lt
  | gt
  /-- A line break, with the indentation of the line behind it. -/
  | newline
  /-- A block opens. -/
  | indent
  /-- A block closes. -/
  | dedent
  | lbrace
  | rbrace
  | semi
  /-- The end of the text. -/
  | eof
deriving DecidableEq, Repr, Inhabited

namespace Kind

/-- All kinds, in the order of their codes. -/
def all : List Kind :=
  [ident, int, str, defWord, ifWord, elseWord, whileWord, returnWord, colon, comma, lparen, rparen,
    assign, eqEq, plus, minus, star, slash, lt, gt, newline, indent, dedent, lbrace, rbrace, semi,
    eof]

/-- The number of a kind in the order of declaration. -/
def code (k : Kind) : Nat := k.ctorIdx

/-- The name a kind is shown by. -/
def name : Kind → String
  | ident => "Ident"
  | int => "Int"
  | str => "Str"
  | defWord => "Def"
  | ifWord => "If"
  | elseWord => "Else"
  | whileWord => "While"
  | returnWord => "Return"
  | colon => "Colon"
  | comma => "Comma"
  | lparen => "LParen"
  | rparen => "RParen"
  | assign => "Assign"
  | eqEq => "EqEq"
  | plus => "Plus"
  | minus => "Minus"
  | star => "Star"
  | slash => "Slash"
  | lt => "Lt"
  | gt => "Gt"
  | newline => "Newline"
  | indent => "Indent"
  | dedent => "Dedent"
  | lbrace => "LBrace"
  | rbrace => "RBrace"
  | semi => "Semi"
  | eof => "Eof"

/-- The kind with the given name. -/
def ofName? (s : String) : Option Kind := all.find? fun k => k.name == s

/-- Content kinds carry program text: all but the structural kinds of the indented form and the end
of the text. -/
def isContent (k : Kind) : Bool :=
  k != newline && k != indent && k != dedent && k != eof

/-- The kind of a whole identifier: a keyword exactly when it is spelled like one. -/
def ofWord : List Char → Kind
  | ['d', 'e', 'f'] => defWord
  | ['i', 'f'] => ifWord
  | ['e', 'l', 's', 'e'] => elseWord
  | ['w', 'h', 'i', 'l', 'e'] => whileWord
  | ['r', 'e', 't', 'u', 'r', 'n'] => returnWord
  | _ => ident

/-- The code of a kind is its place in the list of all kinds. -/
theorem all_getElem?_code (k : Kind) : all[k.code]? = some k := by cases k <;> rfl

theorem mem_all (k : Kind) : k ∈ all := List.mem_of_getElem? (all_getElem?_code k)

theorem code_lt (k : Kind) : k.code < 27 := by cases k <;> decide

theorem code_inj {j k : Kind} : j.code = k.code ↔ j = k :=
  ⟨fun h => Option.some.inj <| by rw [← all_getElem?_code, ← all_getElem?_code, h],
    fun h => h ▸ rfl⟩

end Kind

end OffsideBench.Token
