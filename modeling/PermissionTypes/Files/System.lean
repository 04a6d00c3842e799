import PermissionTypes.Files.Fault
import PermissionTypes.Files.Path

/-! A file system without links, on a system that follows POSIX. Every place is a list of names that
leads down from the root, and a file or a directory stands at some places. Paths are followed
element by element, and only what stands on the way can stop them. There are no permissions here, no
lack of room and no failing devices: what a session meets of those belongs to its workspace. Other
kinds of paths, such as those with drives, are not covered at all. -/

namespace PermissionTypes

/-- The names on the way from the root to a place. -/
abbrev Place := List (List Char)

inductive Node where
  | file (content : ByteArray)
  | directory

structure FileSystem where
  workingDirectory : Place
  nodes : List (Place × Node)

namespace FileSystem

/-! ## Places -/

def node? (files : FileSystem) (place : Place) : Option Node :=
  match place with
  | [] => some .directory
  | _ :: _ => files.nodes.lookup place

def isDirectory (files : FileSystem) (place : Place) : Bool :=
  match files.node? place with
  | some .directory => true
  | _ => false

def put (files : FileSystem) (place : Place) (node : Node) : FileSystem :=
  { files with nodes := (place, node) :: files.nodes.filter (·.1 != place) }

theorem node?_put_self (files : FileSystem) (place : Place) (node : Node)
    (below : place ≠ []) : (files.put place node).node? place = some node := by
  cases place with
  | nil => exact absurd rfl below
  | cons name place => simp [node?, put]

theorem node?_put_of_ne (files : FileSystem) (place other : Place) (node : Node)
    (different : other ≠ place) : (files.put place node).node? other = files.node? other := by
  cases other with
  | nil => rfl
  | cons name other =>
      have notEqual : (name :: other == place) = false := by simpa using different
      simp only [node?, put, List.lookup_cons, notEqual]
      induction files.nodes with
      | nil => rfl
      | cons entry nodes induction =>
          rcases entry with ⟨entryPlace, entryNode⟩
          by_cases same : entryPlace = place
          · have away : (name :: other == entryPlace) = false := by simpa [same] using different
            simp [same, induction, List.lookup_cons, notEqual]
          · cases found : (name :: other == entryPlace) <;>
              simp [List.lookup_cons, same, found, induction]

/-! ## Following paths -/

def longestName : Nat := 255

def longestPath : Nat := 4095

def step (files : FileSystem) (directory : Place) (element : List Char) :
    Except FileFault Place :=
  if !files.isDirectory directory then .error .notDirectory
  else if element = Path.here then .ok directory
  else if element = Path.up then .ok directory.dropLast
  else if longestName < Text.byteLength element then .error .nameTooLong
  else
    let place := directory ++ [element]
    if (files.node? place).isSome then .ok place else .error .missing

def follow (files : FileSystem) (start : Place) (elements : List (List Char)) :
    Except FileFault Place :=
  elements.foldlM files.step start

def start (files : FileSystem) (path : Path) : Except FileFault Place :=
  if path.text.contains '\x00' then .error .nulCharacter
  else if path.text.isEmpty then .error .missing
  else if longestPath < Text.byteLength path.text then .error .nameTooLong
  else if path.isAbsolute then .ok []
  else .ok files.workingDirectory

/-! ## Reading -/

def locate (files : FileSystem) (path : Path) : Except FileFault Place := do
  let start ← files.start path
  let place ← files.follow start path.elements
  if path.asksForDirectory && !files.isDirectory place then
    throw .notDirectory
  pure place

def read (files : FileSystem) (path : Path) : Except FileFault ByteArray := do
  let place ← files.locate path
  match files.node? place with
  | some (.file content) => pure content
  | some .directory => throw .isDirectory
  | none => throw .missing

/-! ## Writing

A file is written at the place of the last element. Everything before it has to be there, and the
last element itself is made if it is missing. There are two steps: a file that is opened is empty
at first, and then the content goes into it. -/

/-- The place of the file that is written, which is a file or nothing yet. -/
def target (files : FileSystem) (path : Path) : Except FileFault Place := do
  let start ← files.start path
  match path.elements.getLast? with
  | none => throw .isDirectory
  | some last =>
      let parent ← files.follow start path.elements.dropLast
      if !files.isDirectory parent then
        throw .notDirectory
      if last = Path.here ∨ last = Path.up ∨ path.asksForDirectory then
        throw .isDirectory
      if longestName < Text.byteLength last then
        throw .nameTooLong
      let place := parent ++ [last]
      if files.isDirectory place then
        throw .isDirectory
      pure place

def create (files : FileSystem) (path : Path) : Except FileFault (Place × FileSystem) := do
  let place ← files.target path
  pure (place, files.put place (.file .empty))

def append (files : FileSystem) (place : Place) (content : ByteArray) : FileSystem :=
  match files.node? place with
  | some (.file written) => files.put place (.file (written ++ content))
  | _ => files

def write (files : FileSystem) (path : Path) (content : ByteArray) :
    Except FileFault FileSystem := do
  let (place, opened) ← files.create path
  pure (opened.append place content)

/-! ## Building -/

/-- A place and all places above it except the root, the highest first. -/
def upTo : Place → List Place
  | [] => []
  | name :: names => [name] :: (upTo names).map (name :: ·)

def ofWorkingDirectory (place : Place) : FileSystem where
  workingDirectory := place
  nodes := (upTo place).map fun above => (above, .directory)

def withDirectory (files : FileSystem) (names : List (List Char)) : FileSystem :=
  (upTo names).foldl (fun files above => files.put (files.workingDirectory ++ above) .directory)
    files

def withFile (files : FileSystem) (names : List (List Char)) (content : ByteArray) : FileSystem :=
  (files.withDirectory names.dropLast).put (files.workingDirectory ++ names) (.file content)

end FileSystem
end PermissionTypes
