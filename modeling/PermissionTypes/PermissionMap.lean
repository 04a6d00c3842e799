import PermissionTypes.ObjectModel
import PermissionTypes.Text.Quoted
import PermissionTypes.Text.Split

/-! The permission map: which permissions can be asked for on which type of resource. It is
written as the declaration of a type, with one line for each resource type. -/

namespace PermissionTypes

open Text (join quote)

/-! ## Entries -/

structure PermissionEntry where
  resourceType : String
  permissions : List String
  deriving DecidableEq, Repr

namespace PermissionEntry

def ofType (type : ObjectType) : PermissionEntry where
  resourceType := type.name
  permissions := type.permissions

def isKeyStart (character : Char) : Bool :=
  character.isAlpha || character == '_' || character == '$'

def isKeyCharacter (character : Char) : Bool :=
  character.isAlphanum || character == '_' || character == '$'

def isPlainKey : List Char → Bool
  | [] => false
  | first :: more => isKeyStart first && more.all isKeyCharacter

def key (name : List Char) : List Char :=
  if isPlainKey name then name else quote name

/-- The permissions as alternatives. Where there are none, the empty literal stands for them, which
no permission is. -/
def alternatives : List String → List Char
  | [] => ['"', '"']
  | permissions => join " | ".toList (permissions.map fun name => quote name.toList)

def characters (entry : PermissionEntry) : List Char :=
  key entry.resourceType.toList ++ [':', ' '] ++ alternatives entry.permissions ++ [',']

def describe (entry : PermissionEntry) : String :=
  String.ofList entry.characters

end PermissionEntry

/-! ## Maps -/

structure PermissionMap where
  entries : List PermissionEntry
  deriving DecidableEq, Repr

namespace PermissionMap

def ofTypes (types : List ObjectType) : PermissionMap where
  entries := types.map .ofType

def resourceTypes (map : PermissionMap) : List String :=
  map.entries.map (·.resourceType)

def permissions? (map : PermissionMap) (resourceType : String) : Option (List String) :=
  (map.entries.find? fun entry => entry.resourceType == resourceType).map (·.permissions)

def size (map : PermissionMap) : Nat :=
  map.entries.length

def isEmpty (map : PermissionMap) : Bool :=
  map.entries.isEmpty

def header : String := "type ResourcePermissionMap = \x7b"

def entryLine (entry : PermissionEntry) : List Char :=
  '\n' :: ' ' :: ' ' :: entry.characters

def characters (map : PermissionMap) : List Char :=
  header.toList ++ map.entries.flatMap entryLine ++ ['\n', '}', '\n']

def describe (map : PermissionMap) : String :=
  String.ofList map.characters

end PermissionMap
end PermissionTypes
