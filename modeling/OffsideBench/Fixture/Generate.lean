import OffsideBench.Fixture.Program
import OffsideBench.Random.Dice

/-!
# Generating fixtures

A synthetic program is grown step by step. A step may write a blank line or a comment, may leave
some of the open blocks, and then writes either the header of a new block or a statement. The step
behind a header does nothing but write a statement, so no block is empty; a header in the last step
is followed by a filler.

The same seed gives the same program. `grow` works with any dice, so what holds for it holds for
every outcome of the draws.
-/

namespace OffsideBench.Fixture

open OffsideBench.Random (Dice Generator)

/-- What a synthetic program is made from. -/
structure Config where
  /-- The number of steps; each writes one line of code. -/
  statements : Nat := 500
  /-- The deepest nesting of blocks. -/
  maxDepth : Nat := 4
  /-- The seed of the draws. -/
  seed : UInt64 := 42
deriving DecidableEq, Repr, Inhabited

/-- The names that programs use. -/
def names : List String :=
  ["alpha", "beta", "gamma", "delta", "total", "count", "index", "limit", "value", "acc"]

/-- The operators that programs use. -/
def operators : List String := ["+", "-", "*", "/", "<", ">", "=="]

/-- A program in the making. -/
structure Draft where
  /-- The lines written so far. -/
  lines : Array Line := #[]
  /-- The number of open blocks. -/
  depth : Nat := 0
  /-- Whether the last line is a header. -/
  needsBody : Bool := false
deriving DecidableEq, Repr, Inhabited

/-- Adds a line. -/
def Draft.add (d : Draft) (line : Line) : Draft := { d with lines := d.lines.push line }

section

variable {σ : Type} (dice : Dice σ)

/-- Draws a name. -/
def drawName : StateM σ String := dice.choose names (by decide)

/-- Draws an expression. -/
def drawExpr : StateM σ Expr := do
  let left ← drawName dice
  let operator ← dice.choose operators (by decide)
  if ← dice.coin then
    return ⟨left, operator, .number (← dice.below 10000 (by decide))⟩
  else
    return ⟨left, operator, .name (← drawName dice)⟩

/-- Draws the header of a block. -/
def drawHeader : StateM σ Header := do
  match ← dice.below 4 (by decide) with
  | 0 =>
    let name ← drawName dice
    let first ← drawName dice
    return .define name first (← drawName dice)
  | 1 => return .test (← drawExpr dice)
  | 2 => return .loop (← drawExpr dice)
  | 3 => return .otherwise

/-- Draws a statement. -/
def drawStatement : StateM σ Statement := do
  match (← dice.below 10 (by decide)).val with
  | 0 => return .giveBack (← drawExpr dice)
  | 1 =>
    let text ← drawName dice
    return .print text (← drawName dice)
  | _ =>
    let name ← drawName dice
    return .assign name (← drawExpr dice)

/-- Draws whether something happens that does so `percent` times in a hundred. -/
def chance (percent : Nat) : StateM σ Bool :=
  return (← dice.below 100 (by decide)).val < percent

/-- Draws the line without code that a step begins with, if any. -/
def drawFiller (d : Draft) : StateM σ Draft := do
  let roll ← dice.below 100 (by decide)
  if roll.val < 4 then
    return d.add .blank
  else if roll.val < 8 then
    return d.add (.comment d.depth (← dice.below 1000 (by decide)))
  else
    return d

/-- Leaves some of the open blocks, or none. -/
def drawDepth (d : Draft) : StateM σ Draft := do
  if h : 0 < d.depth then
    if ← chance dice 20 then
      return { d with depth := ← dice.belowWide d.depth h }
    else
      return d
  else
    return d

/-- Writes the statement that a step ends with. -/
def addStatement (d : Draft) : StateM σ Draft := do
  return { d.add (.statement d.depth (← drawStatement dice)) with needsBody := false }

/-- One step. -/
def step (maxDepth : Nat) (d : Draft) : StateM σ Draft := do
  if d.needsBody then
    addStatement dice d
  else
    let d ← drawDepth dice (← drawFiller dice d)
    let opens ← if d.depth < maxDepth then chance dice 25 else pure false
    if opens then
      let d := d.add (.header d.depth (← drawHeader dice))
      return { d with depth := d.depth + 1, needsBody := true }
    else
      addStatement dice d

/-- As many steps as asked for. -/
def grow (maxDepth : Nat) : Nat → Draft → StateM σ Draft
  | 0, d => return d
  | n + 1, d => do grow maxDepth n (← step dice maxDepth d)

end

/-- The lines of a draft, with a filler if it ends in a header. -/
def Draft.finish (d : Draft) : List Line :=
  (if d.needsBody then d.add (.statement d.depth .filler) else d).lines.toList

/-- The lines of the program that any dice give, starting in the state `s`. -/
def linesWith {σ : Type} (dice : Dice σ) (s : σ) (statements maxDepth : Nat) : List Line :=
  ((grow dice maxDepth statements {}).run s).1.finish

/-- The lines of a synthetic program. -/
def Config.lines (c : Config) : List Line :=
  linesWith Dice.ofGenerator (Generator.ofSeed c.seed) c.statements c.maxDepth

/-- The text of a synthetic program. -/
def Config.source (c : Config) : String := text c.lines

end OffsideBench.Fixture
