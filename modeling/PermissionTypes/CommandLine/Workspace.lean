import PermissionTypes.CommandLine.Session
import PermissionTypes.Files.System

/-! A workspace is everything that a session can change, the files and what has been printed, with
all that can get in the way of it. It is the host in which the effects of sessions can be told. -/

namespace PermissionTypes.CommandLine

/-! ## Obstacles -/

/-- What a system does with the files that a session reads and writes, apart from where paths lead.
It may refuse to read one or to open one, and content that exceeds its room is cut short. -/
structure Disk where
  unreadable : Option FileFault
  unwritable : Option FileFault
  full : Option (Nat × FileFault)
  deriving DecidableEq, Repr

namespace Disk

def working : Disk where
  unreadable := none
  unwritable := none
  full := none

def pass (disk : Disk) (content : ByteArray) : Except FileFault Unit × ByteArray :=
  match disk.full with
  | none => (.ok (), content)
  | some (room, fault) =>
      if room < content.size then (.error fault, content.extract 0 room) else (.ok (), content)

end Disk

/-- How printing goes. A terminal that refuses a text has taken some of its characters before, and
one that fails to pass a text on has taken it already. -/
inductive Terminal where
  | working
  | refusingText (cause : String) (taken : Nat := 0)
  | refusingFlush (cause : String)
  deriving DecidableEq, Repr

structure Workspace where
  files : FileSystem
  terminal : Terminal
  printed : String
  disk : Disk := .working

namespace Workspace

/-! ## Effects -/

def look (workspace : Workspace) (path : Path) : Except FileFault ByteArray := do
  let content ← workspace.files.read path
  match workspace.disk.unreadable with
  | none => pure content
  | some fault => throw fault

def readFile (path : Path) : StateM Workspace (Except FileFault ByteArray) :=
  fun workspace => (workspace.look path, workspace)

def openFile (path : Path) : StateM Workspace (Except FileFault Place) :=
  fun workspace =>
    match workspace.files.create path, workspace.disk.unwritable with
    | .error fault, _ => (.error fault, workspace)
    | .ok _, some fault => (.error fault, workspace)
    | .ok (place, files), none => (.ok place, { workspace with files })

/-- What gets into the file stays there, also if it is not all. -/
def fillFile (place : Place) (content : ByteArray) : StateM Workspace (Except FileFault Unit) :=
  fun workspace =>
    let (result, passed) := workspace.disk.pass content
    (result, { workspace with files := workspace.files.append place passed })

def writeFile (path : Path) (content : ByteArray) :
    StateM Workspace (Except FileFault Unit) := do
  match ← openFile path with
  | .ok place => fillFile place content
  | .error fault => pure (.error fault)

def print (text : String) : StateM Workspace (Except String Unit) :=
  fun workspace =>
    match workspace.terminal with
    | .working => (.ok (), { workspace with printed := workspace.printed ++ text })
    | .refusingText cause taken =>
        let part := String.ofList (text.toList.take taken)
        (.error cause, { workspace with printed := workspace.printed ++ part })
    | .refusingFlush cause =>
        (.error cause, { workspace with printed := workspace.printed ++ text })

/-! ## Sessions -/

def host : Host (StateM Workspace) where
  readFile := readFile
  writeFile := writeFile
  print := print

def run (workspace : Workspace) (arguments : Arguments) :
    Except SessionFailure Unit × Workspace :=
  Session.run host arguments workspace

def startWith (readers : Readers) (workspace : Workspace) (environment : List (String × String))
    (arguments : Arguments) : Except SessionFailure Unit × Workspace :=
  Session.startWith readers host environment arguments workspace

def start (workspace : Workspace) (environment : List (String × String))
    (arguments : Arguments) : Except SessionFailure Unit × Workspace :=
  workspace.startWith .standard environment arguments

end Workspace
end PermissionTypes.CommandLine
