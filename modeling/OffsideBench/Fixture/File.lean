import OffsideBench.Files.Tree
import OffsideBench.Fixture.Generate
import OffsideBench.Fixture.Name

/-!
# Fixture files

Writing a synthetic program where a catalog finds it.
-/

namespace OffsideBench.Fixture

/-- The path of the file for a fixture in a directory. -/
def filePath (dir : Path) (multiplier : Option Binary64) (name : String) : Path :=
  dir.join (Path.ofString (fileName multiplier name))

/-- Writes a synthetic program into a directory, which is made if it does not exist. -/
def saving (dir : Path) (multiplier : Option Binary64) (name : String) (config : Config) :
    FileM Unit := do
  FileM.makeDirectories dir
  FileM.change fun tree => tree.write (filePath dir multiplier name) config.source.toUTF8

/-- The tree with a synthetic program written into a directory. -/
def save (tree : FileTree) (dir : Path) (multiplier : Option Binary64) (name : String)
    (config : Config) : Except OsError FileTree :=
  (saving dir multiplier name config).outcome tree

end OffsideBench.Fixture
