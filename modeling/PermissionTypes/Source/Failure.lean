import PermissionTypes.Files.Fault
import PermissionTypes.Source.ResourceName

/-! Why a schema cannot be read from a source. -/

namespace PermissionTypes.Source

inductive Failure where
  | notFound (name : String)
  | invalidName (name : String) (fault : NameFault)
  | unreadable (name : String) (fault : FileFault)
  | notText (name : String)
  deriving DecidableEq, Repr

namespace Failure

def describe : Failure → String
  | .notFound name => "schema file '" ++ name ++ "' not found"
  | .invalidName name fault => "invalid schema file name '" ++ name ++ "': " ++ fault.describe
  | .unreadable name fault =>
      "failed to read schema file '" ++ name ++ "': " ++ fault.describe
  | .notText name => "schema file '" ++ name ++ "' is not valid UTF-8"

def ofFault (name : String) : FileFault → Failure
  | .missing => .notFound name
  | fault => .unreadable name fault

end Failure
end PermissionTypes.Source
