import OffsideBench.Session
import Std.Time.DateTime.Timestamp

/-!
# The program

The outer layer of the program. It looks at the files that a command line names, takes the times of
the batches that it leads to, lets the session run with both, and shows and stores what has changed.
-/

namespace OffsideBench.Program

/-! ## Looking at files -/

/-- What stands at an absolute path. -/
inductive Sight where
  | nothing
  | file (content : ByteArray)
  | directory (names : List String)

/-- Looks at an absolute path. -/
def look (path : String) : IO Sight := do
  match ← (IO.FS.realPath path).toBaseIO with
  | .error _ => return .nothing
  | .ok target =>
    match ← target.readDir.toBaseIO with
    | .ok entries => return .directory (entries.toList.map (·.fileName))
    | .error _ =>
      match ← (IO.FS.readBinFile path).toBaseIO with
      | .ok content => return .file content
      | .error _ => return .nothing

/-- Adds the directories on the way to an absolute path to a tree. -/
def addWay (tree : FileTree) (path : String) : IO FileTree := do
  let names := Path.names (Path.ofString path)
  let mut tree := tree
  for n in [1:names.length] do
    let place := names.take n
    match ← look (Path.text (Path.slash :: Path.ofNames place)) with
    | .directory _ => tree := if (tree.entry? place).isSome then tree else tree.put place .directory
    | _ => pure ()
  return tree

/-- Adds what stands at an absolute path to a tree, and what stands below it if `deep` is set. A
link that leads nowhere leads nowhere in the tree. -/
partial def add (deep : Bool) (tree : FileTree) (path : String) : IO FileTree := do
  let place := Path.names (Path.ofString path)
  match tree.entry? place with
  | some .directory => if !deep then return tree
  | some _ => return tree
  | none => pure ()
  match ← (IO.FS.realPath path).toBaseIO with
  | .error _ => return tree.put place (.link (Path.ofString (path ++ " nowhere")))
  | .ok target =>
    if target.toString ≠ path then
      let tree := tree.put place (.link (Path.ofString target.toString))
      add deep (← addWay tree target.toString) target.toString
    else
      match ← look path with
      | .nothing => return tree
      | .file content => return tree.put place (.file content)
      | .directory names =>
        let seen := (tree.children place).map Prod.fst
        let mut tree := tree.put place .directory
        if deep then
          for name in names do
            unless Path.ofString name ∈ seen do
              tree ← add deep tree (path ++ "/" ++ name)
        return tree

/-- A path as an absolute path without its last slashes. -/
def absolute (current : String) (path : Path) : String :=
  Path.text (Path.withoutEndingSlash (Path.join (Path.ofString current) path))

/-- Adds what a path leads to, and the way there. -/
def addPath (deep : Bool) (tree : FileTree) (current : String) (path : Path) : IO FileTree := do
  let path := absolute current path
  match ← (IO.FS.realPath path).toBaseIO with
  | .ok _ => add deep (← addWay tree path) path
  | .error _ => addWay tree path

/-- The files that a command line is about, as far as they exist. -/
def survey (inv : CommandLine.Invocation) : IO FileTree := do
  let current := (← IO.currentDir).toString
  let start := { FileTree.empty with current := Path.names (Path.ofString current) }
  let start ← addPath false start current []
  match inv.command with
  | .run fixtures _ _ _ _ =>
    let tree ← addPath true start current fixtures
    match inv.out with
    | some out => addPath false tree current out
    | none => return tree
  | .catalog fixtures _ => addPath true start current fixtures
  | .generate output name multiplier _ =>
    let tree ← addPath false start current output
    addPath false tree current (Fixture.filePath output multiplier name)

/-- Stores what a session has changed. -/
def store (tree before : FileTree) : IO Unit := do
  for (place, e) in tree.changes before do
    let path := Path.text (Path.slash :: Path.ofNames place)
    match e with
    | .directory => IO.FS.createDirAll path
    | .file content => IO.FS.writeBinFile path content
    | .link _ => pure ()

/-! ## Taking times -/

/-- Runs a batch and takes its time. -/
def time (b : Batch) (seed : UInt64) : IO (Sink × Timing) := do
  let mut sink : Sink := ⟨seed⟩
  let mut tokens := 0
  let start ← IO.monoNanosNow
  for _ in [0:b.repetitions.toNat] do
    let before ← IO.monoNanosNow
    let stream ← IO.lazyPure fun _ => b.drain
    let after ← IO.monoNanosNow
    tokens := tokens + (after - before)
    sink := sink.consumeAll stream.kinds
  let stop ← IO.monoNanosNow
  return (sink, ⟨stop - start, tokens⟩)

/-! ## Running -/

/-- The values of the variables that a session looks at. -/
def surroundings : IO Surroundings := do
  let names := Surroundings.speedVariable :: Surroundings.revisionVariables
  let values ← names.mapM fun name => do return (name, ← IO.getEnv name)
  let now ← Std.Time.Timestamp.now
  return .ofVariables (fun name => (values.lookup name).join)
    now.toSecondsSinceUnixEpoch.val.toNat.toUInt64

/-- Shows an error and its causes. -/
def complain (e : BenchError) : IO Unit := do
  IO.eprintln s!"error: {e.message}"
  for cause in e.causes do
    IO.eprintln s!"  caused by: {cause}"

/-- Runs the session of a command line and gives the exit code. -/
def run (surroundings : Surroundings) (inv : CommandLine.Invocation) : IO UInt32 := do
  let tree ← survey inv
  let clock ← (Session.batches tree inv).mapM fun b => do return (← time b inv.seed).2
  let (result, after) := (Session.perform surroundings inv).run.run { tree, bench := { clock } }
  IO.print after.bench.writer.text
  store after.tree tree
  IO.eprint after.notices
  match result with
  | .ok _ => return 0
  | .error e =>
    complain e
    return 1

end OffsideBench.Program

open OffsideBench in
/-- Runs the program with the given arguments. -/
def main (args : List String) : IO UInt32 := do
  let surroundings ← Program.surroundings
  match CommandLine.parse args surroundings.speed with
  | .ok inv => Program.run surroundings inv
  | .error .helpRequested =>
    IO.println CommandLine.UsageError.helpRequested.message
    return 0
  | .error e =>
    IO.eprintln s!"error: {e.message}"
    return 2
