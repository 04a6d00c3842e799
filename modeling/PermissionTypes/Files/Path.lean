import PermissionTypes.Text.Bytes
import PermissionTypes.Text.Split

/-! Paths. Slashes separate the elements of a path, and several of them count as one. -/

namespace PermissionTypes

structure Path where
  text : List Char
  deriving DecidableEq, Repr

namespace Path

def ofString (text : String) : Path where
  text := text.toList

def isAbsolute (path : Path) : Bool :=
  path.text.head? == some '/'

def asksForDirectory (path : Path) : Bool :=
  path.text.getLast? == some '/'

def elements (path : Path) : List (List Char) :=
  (Text.split '/' path.text).filter (!·.isEmpty)

/-- The path of a name below a directory. The empty directory is the one that paths start from. -/
def below (directory : Path) (name : List Char) : Path where
  text :=
    if directory.text.isEmpty || directory.asksForDirectory then directory.text ++ name
    else directory.text ++ '/' :: name

def here : List Char := ['.']

def up : List Char := ['.', '.']

end Path
end PermissionTypes
