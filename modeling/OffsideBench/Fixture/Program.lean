/-!
# Synthetic programs

The lines that a synthetic fixture is made of, and how they are written. Only the lines with code
matter to a reader of tokens; blank lines and comments are there to be skipped.
-/

namespace OffsideBench.Fixture

/-- The right side of an operator. -/
inductive Operand where
  | number (n : Nat)
  | name (name : String)
deriving DecidableEq, Repr, Inhabited

/-- A name, an operator and its right side. -/
structure Expr where
  /-- The name on the left. -/
  left : String
  /-- The operator. -/
  operator : String
  /-- What stands on the right. -/
  right : Operand
deriving DecidableEq, Repr, Inhabited

/-- A line that opens a block. -/
inductive Header where
  /-- A definition with two parameters. -/
  | define (name first second : String)
  | test (e : Expr)
  | loop (e : Expr)
  | otherwise
deriving DecidableEq, Repr, Inhabited

/-- A line that is complete in itself. -/
inductive Statement where
  | giveBack (e : Expr)
  | print (text value : String)
  | assign (name : String) (e : Expr)
  /-- The statement that fills a block which would be empty. -/
  | filler
deriving DecidableEq, Repr, Inhabited

/-- A line of a synthetic program. -/
inductive Line where
  | blank
  | comment (depth number : Nat)
  | header (depth : Nat) (h : Header)
  | statement (depth : Nat) (s : Statement)
deriving DecidableEq, Repr, Inhabited

/-- The text of an operand. -/
def Operand.text : Operand → String
  | .number n => toString n
  | .name s => s

/-- The text of an expression. -/
def Expr.text (e : Expr) : String := s!"{e.left} {e.operator} {e.right.text}"

/-- The text of a line that opens a block. -/
def Header.text : Header → String
  | define name first second => s!"def {name}({first}, {second}):"
  | test e => s!"if {e.text}:"
  | loop e => s!"while {e.text}:"
  | otherwise => "else:"

/-- The text of a statement. -/
def Statement.text : Statement → String
  | giveBack e => s!"return {e.text}"
  | print text value => s!"print(\"{text}\", {value})"
  | assign name e => s!"{name} = {e.text}"
  | filler => "return 0"

/-- The indentation of one block. -/
def indentation : String := "    "

/-- A line at the given depth. -/
def indented (depth : Nat) (text : String) : String :=
  String.join (List.replicate depth indentation) ++ text ++ "\n"

/-- The text of a line. -/
def Line.text : Line → String
  | blank => "\n"
  | comment depth number => indented depth s!"# step {number}"
  | header depth h => indented depth h.text
  | statement depth s => indented depth s.text

/-- The text of a program. -/
def text (lines : List Line) : String := String.join (lines.map Line.text)

end OffsideBench.Fixture
