import OffsideBench.Text.Utf8

/-!
# Paths

Paths are bytes, since the names in a file system need not be text. A path is a row of names between
slashes; repeated slashes count as one, `.` stays where it is and `..` goes up.
-/

namespace OffsideBench

/-- One name of a path. -/
abbrev Name := List UInt8

/-- A path as it is written. -/
abbrev Path := List UInt8

namespace Path

/-- The byte between two names. -/
def slash : UInt8 := 0x2f

/-- The name of a directory within itself. -/
def here : Name := [0x2e]

/-- The name of the directory above. -/
def above : Name := [0x2e, 0x2e]

/-- The path that a text spells. -/
def ofString (s : String) : Path := s.toUTF8.toList

/-- Splits bytes at every slash. -/
def split : Path → List Name
  | [] => [[]]
  | b :: bs =>
    if b = slash then
      [] :: split bs
    else
      match split bs with
      | [] => [[b]]
      | name :: names => (b :: name) :: names

/-- The names of a path in order. -/
def names (p : Path) : List Name := (split p).filter (· ≠ [])

/-- Whether a path starts at the root of the whole system. -/
def isAbsolute (p : Path) : Bool := p.head? == some slash

/-- Whether a path ends in a slash, and so insists on a directory. -/
def endsInSlash (p : Path) : Bool := p.getLast? == some slash

/-- The names by which a path is followed. A slash at its end counts as an empty name, which stays
where it is but insists on a directory. -/
def steps (p : Path) : List Name := p.names ++ if p.endsInSlash then [[]] else []

/-- A path without the slashes at its end. -/
def withoutEndingSlash (p : Path) : Path :=
  match (p.reverse.dropWhile (· = slash)).reverse with
  | [] => p.take 1
  | q => q

/-- A path behind a directory; an absolute path stands for itself. -/
def join (dir p : Path) : Path :=
  if p.isAbsolute then p
  else if dir = [] ∨ dir.endsInSlash then dir ++ p
  else dir ++ slash :: p

/-- The names of a path without those that stay where they are, except at its start. -/
def significantNames (p : Path) : List Name :=
  match p.names with
  | [] => []
  | name :: rest => (if name = here ∧ p.isAbsolute then [] else [name]) ++ rest.filter (· ≠ here)

/-- The relative path with the given names. -/
def ofNames (names : List Name) : Path := (names.intersperse [slash]).flatten

/-- The path of the directory that a path lies in, if it lies in one. -/
def parent? (p : Path) : Option Path :=
  match p.significantNames with
  | [] => none
  | names => some ((if p.isAbsolute then [slash] else []) ++ ofNames names.dropLast)

/-- The last name of a path, or the whole path if that name only points to a directory. -/
def fileName (p : Path) : Name :=
  match p.significantNames.getLast? with
  | none => p
  | some name => if name = here ∨ name = above then p else name

/-- The text of bytes, with a replacement character in place of each fault. -/
def text : Path → String
  | [] => ""
  | b :: bs =>
    match Utf8.decode ⟨(b :: bs).toArray⟩ with
    | .ok s => s
    | .error fault =>
      let (index, length) := match fault with
        | .invalid length index => (index, length)
        | .incomplete index => (index, bs.length + 1)
      (String.fromUTF8? ⟨((b :: bs).take index).toArray⟩).getD "" ++ "\ufffd" ++
        text (bs.drop (index + length - 1))
termination_by p => p.length

end Path

end OffsideBench
