import PermissionTypes.Text.Position

/-! A diagnostic says why a schema is rejected and, if it is known, where. -/

namespace PermissionTypes

open Text (Position)

structure Diagnostic where
  message : String
  position : Option Position
  deriving DecidableEq, Repr

namespace Diagnostic

def unplaced (message : String) : Diagnostic where
  message := message
  position := none

def atOffset (message : String) (schema : String) (offset : Nat) : Diagnostic where
  message := message
  position := some (Position.ofOffset schema.toList offset)

def describe (diagnostic : Diagnostic) : String :=
  match diagnostic.position with
  | some position => position.describe ++ ": " ++ diagnostic.message
  | none => diagnostic.message

end Diagnostic
end PermissionTypes
