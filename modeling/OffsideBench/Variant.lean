import OffsideBench.Braces

/-!
# Variants

The three token streams that are compared with one another. All start from the same fixture text in
the dented form; the braced variant first writes its blocks with braces, and that work is done once,
before anything is measured.
-/

namespace OffsideBench

/-- A way to read a fixture. -/
inductive Variant where
  /-- The dented form with its block structure. -/
  | dented
  /-- The dented form with plain line breaks. -/
  | rawDented
  /-- The fixture with its blocks written as braces. -/
  | braced
deriving DecidableEq, Repr, Inhabited

namespace Variant

/-- All variants, in the order in which they are run by default. -/
def all : List Variant := [dented, rawDented, braced]

/-- The name of a variant in progress output. -/
def label : Variant → String
  | dented => "Dented"
  | rawDented => "RawDented"
  | braced => "Braced"

/-- The name of a variant on the command line and in reports. -/
def name : Variant → String
  | dented => "dented"
  | rawDented => "raw-dented"
  | braced => "braced"

/-- The variant with the given name. -/
def ofName? (s : String) : Option Variant := all.find? fun v => v.name == s

/-- The variant with the given name, whatever the case of its letters. -/
def ofNameIgnoringCase? (s : String) : Option Variant :=
  all.find? fun v => v.name == s.map Char.toLower

/-- A reader in front of a text that is ready for the variant. -/
def reader (v : Variant) (prepared : String) : Reader :=
  match v with
  | dented => .structured (.ofText prepared)
  | rawDented => .lines (.ofText prepared)
  | braced => .braced (.ofText .braced prepared)

/-- The stream of a text that is ready for the variant. -/
def drain (v : Variant) (prepared : String) : Drain := (v.reader prepared).drain

/-- Makes a fixture text ready for the variant. -/
def prepare (v : Variant) (source : String) : Except LexError String :=
  match v with
  | dented | rawDented => .ok source
  | braced => Braces.ofIndentation.write source (dented.drain source)

/-- Whether the fixture text itself is read, not a text made from it. -/
def readsSource : Variant → Bool
  | dented | rawDented => true
  | braced => false

theorem ofName?_name (v : Variant) : ofName? v.name = some v := by cases v <;> rfl

/-- A variant that reads the fixture text itself leaves it as it is. -/
theorem prepare_of_readsSource {v : Variant} (h : v.readsSource = true) (source : String) :
    v.prepare source = .ok source := by cases v <;> first | rfl | cases h

end Variant

end OffsideBench
