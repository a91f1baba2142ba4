import OffsideBench.Fixture.Name
import OffsideBench.Sha256

/-!
# Catalogs

The fixtures below a directory. A fixture is a file whose name is text and ends in a given suffix.
One fixture that cannot be used spoils the whole catalog. Of several fixtures with one name the last
one met is kept, so each name occurs once; workloads are listed by name.
-/

namespace OffsideBench

/-- A fixture that was read. The path by which it was met is not kept, since nothing that is done with
a workload looks at it; faults name the path while the fixture is read. -/
structure Workload where
  /-- The name of its file. -/
  name : String
  /-- Its text. -/
  source : String
  /-- The multiplier that its name begins with. -/
  multiplier : Binary64
  /-- The SHA-256 digest of its bytes in lower-case digits. -/
  digest : String
deriving DecidableEq, Repr, Inhabited

/-- The workload of a file with the given name. A bad name is reported before bad content. -/
def Workload.ofFile (name : String) (file : FoundFile) : Except BenchError Workload :=
  match Fixture.multiplierOf name with
  | .error e => .error e
  | .ok multiplier =>
    match file.content with
    | .error e => .error (.file file.path (.refused e))
    | .ok content =>
      match Utf8.decode content with
      | .error fault => .error (.file file.path (.notText fault))
      | .ok source => .ok ⟨name, source, multiplier, Sha256.hexDigest content⟩

namespace Catalog

/-- The name of a file, if it is the name of a fixture. -/
def fixtureName? (suffix : String) (file : FoundFile) : Option String :=
  match Utf8.decode ⟨file.name.toArray⟩ with
  | .ok name => if name.endsWith suffix then some name else none
  | .error _ => none

/-- Puts a workload in its place among workloads in the order of their names; it replaces one with
the same name. -/
def insert (w : Workload) : List Workload → List Workload
  | [] => [w]
  | v :: vs =>
    if w.name < v.name then w :: v :: vs
    else if w.name = v.name then w :: vs
    else v :: insert w vs

/-- What a walk met, as an error of the benchmark if it is one. -/
def met : Except WalkError FoundFile → Except BenchError FoundFile
  | .ok file => .ok file
  | .error (.refused path e) => .error (.file path (.walk (.refused path e)))
  | .error (.loop path ancestor) => .error (.file path (.walk (.loop path ancestor)))

/-- Adds what a walk met to the workloads met before. -/
def add (suffix : String) (workloads : List Workload) (m : Except WalkError FoundFile) :
    Except BenchError (List Workload) :=
  match met m with
  | .error e => .error e
  | .ok file =>
    match fixtureName? suffix file with
    | none => .ok workloads
    | some name => (Workload.ofFile name file).map fun w => insert w workloads

/-- The workloads among what a walk met. -/
def ofWalk (suffix : String) (walk : List (Except WalkError FoundFile)) :
    Except BenchError (List Workload) :=
  walk.foldlM (add suffix) []

/-- The workloads below a directory. -/
def list (tree : FileTree) (root : Path) (suffix : String) : Except BenchError (List Workload) :=
  ofWalk suffix (tree.walk root)

/-- The workloads below a directory, of which there must be one. -/
def load (tree : FileTree) (root : Path) (suffix : String) : Except BenchError (List Workload) :=
  match list tree root suffix with
  | .ok [] => .error (.misconfigured (.noFixtures suffix root))
  | result => result

end Catalog

end OffsideBench
