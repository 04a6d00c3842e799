import PermissionTypes.Files.Path
import PermissionTypes.Source.Failure

/-! A source that reads its resources from a directory. How files are read is up to the place where
the source is used. -/

namespace PermissionTypes.Source

structure Directory where
  root : String

namespace Directory

def pathOf (directory : Directory) (name : String) : Path :=
  (Path.ofString directory.root).below name.toList

/-- Reads a resource with a way to read files. A name that cannot stand for a resource is refused
before any file is looked at. -/
def read [Monad m] (directory : Directory) (readFile : Path → m (Except FileFault ByteArray))
    (name : String) : m (Except Failure ByteArray) :=
  match ResourceName.check name.toList with
  | .error fault => pure (.error (.invalidName name fault))
  | .ok () => do
      match ← readFile (directory.pathOf name) with
      | .ok content => pure (.ok content)
      | .error fault => pure (.error (.ofFault name fault))

end Directory
end PermissionTypes.Source
