import PermissionTypes.CommandLine.Arguments
import PermissionTypes.CommandLine.LogFilter
import PermissionTypes.CommandLine.Settings
import PermissionTypes.Generation
import PermissionTypes.Schema.Compilation
import PermissionTypes.Source.Directory

/-! A session of the program: settings are read, the client module is generated, and then, only if
all went well, it is written. -/

namespace PermissionTypes.CommandLine

/-! ## The surroundings -/

/-- What a session does outside of itself: reading and writing files and printing. A print has
succeeded only when the text has been passed on. -/
structure Host (m : Type → Type) where
  readFile : Path → m (Except FileFault ByteArray)
  writeFile : Path → ByteArray → m (Except FileFault Unit)
  print : String → m (Except String Unit)

/-- How settings are read from an environment and which texts are filters for a log. Both are up to
libraries, and nothing else about these matters to a session. -/
structure Readers where
  settings? : List (String × String) → Option Settings
  acceptsFilter : String → Bool

namespace Readers

def standard : Readers where
  settings? environment := (Settings.ofEnvironment environment).toOption
  acceptsFilter text := (LogFilter.ofText? text.toList).isSome

end Readers

/-! ## Failures -/

inductive SessionFailure where
  | configuration
  | generation (cause : GenerationFailure)
  | output (destination : String) (cause : String)
  deriving DecidableEq, Repr

namespace SessionFailure

def describe : SessionFailure → String
  | .configuration => "invalid configuration"
  | .generation _ => "failed to generate TypeScript definitions"
  | .output destination _ => "failed to write definitions to " ++ destination

def causes : SessionFailure → List String
  | .configuration => []
  | .generation cause => [cause.describe, cause.describeCause]
  | .output _ cause => [cause]

end SessionFailure

namespace Session

/-! ## Output -/

def printed : String := "stdout"

def deliver [Monad m] (host : Host m) (output : Option String) (text : String) :
    m (Except SessionFailure Unit) := do
  let line := text ++ "\n"
  match output with
  | some path =>
      match ← host.writeFile (.ofString path) line.toUTF8 with
      | .ok () => pure (.ok ())
      | .error fault => pure (.error (.output path fault.describe))
  | none =>
      match ← host.print line with
      | .ok () => pure (.ok ())
      | .error cause => pure (.error (.output printed cause))

/-! ## Runs -/

def run [Monad m] (host : Host m) (arguments : Arguments) : m (Except SessionFailure Unit) := do
  let source : Source.Directory := { root := arguments.folder }
  let content ← source.read host.readFile arguments.schemaFile
  match Generation.clientModule Schema.compile arguments.schemaFile content with
  | .error cause => pure (.error (.generation cause))
  | .ok text => deliver host arguments.output text

/-! ## Starts -/

def filterText (environment : List (String × String)) (verbosity : Nat) (configured : String) :
    String :=
  LogFilter.choose (environment.lookup "RUST_LOG") verbosity configured

def logFilter? (environment : List (String × String)) (verbosity : Nat) (configured : String) :
    Option LogFilter :=
  LogFilter.ofText? (filterText environment verbosity configured).toList

/-- Nothing is read or written unless the environment makes sense. -/
def startWith [Monad m] (readers : Readers) (host : Host m)
    (environment : List (String × String)) (arguments : Arguments) :
    m (Except SessionFailure Unit) :=
  match readers.settings? environment with
  | none => pure (.error .configuration)
  | some settings =>
      if readers.acceptsFilter (filterText environment arguments.verbosity settings.filter) then
        run host arguments
      else pure (.error .configuration)

def start [Monad m] (host : Host m) (environment : List (String × String))
    (arguments : Arguments) : m (Except SessionFailure Unit) :=
  startWith .standard host environment arguments

end Session
end PermissionTypes.CommandLine
