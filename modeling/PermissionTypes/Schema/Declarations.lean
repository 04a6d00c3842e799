import PermissionTypes.Schema.Violation
import PermissionTypes.Text.Blank

/-! The declarations of a schema, gathered item by item. Names that cannot stand and names that
were taken before are refused here. -/

namespace PermissionTypes.Schema

structure Declarations where
  definitions : List Definition
  caveats : List String
  expiration : Bool

namespace Declarations

def empty : Declarations where
  definitions := []
  caveats := []
  expiration := false

def definition? (declarations : Declarations) (name : String) : Option Definition :=
  declarations.definitions.find? fun definition => definition.name.text == name

def isTaken (declarations : Declarations) (name : String) : Bool :=
  (declarations.definition? name).isSome || declarations.caveats.contains name

end Declarations

/-! ## Caveats -/

namespace Parameter

def knownTypes : List String :=
  ["any", "int", "uint", "bool", "string", "double", "bytes", "duration", "timestamp", "list",
    "map", "ipaddress"]

def outermostType (parameter : Parameter) : List Char :=
  parameter.type.toList.takeWhile (· != '<')

def isKnown (parameter : Parameter) : Bool :=
  knownTypes.contains (String.ofList parameter.outermostType)

/-- Goes through parameters, of which some stood before. -/
def checkAll (caveat : Name) (before : List String) : List Parameter → Except Violation Unit
  | [] => .ok ()
  | parameter :: parameters =>
      if before.contains parameter.name then
        .error (.repeatedParameter caveat parameter.name)
      else if !parameter.isKnown then
        .error (.unknownParameterType caveat parameter)
      else checkAll caveat (parameter.name :: before) parameters

end Parameter

namespace Caveat

def check (caveat : Caveat) : Except Violation Unit := do
  Parameter.checkAll caveat.name [] caveat.parameters
  if Text.isBlank caveat.expression.toList then
    throw (.blankExpression caveat.name)

end Caveat

/-! ## Members -/

namespace Member

def checkNames (type : String) (before : List String) : List Member → Except Violation Unit
  | [] => .ok ()
  | member :: members =>
      if !NameRule.allows member.name.text.toList then
        .error (.malformedMemberName type member.name)
      else if before.contains member.name.text then
        .error (.repeatedMember type member.name)
      else checkNames type (member.name.text :: before) members

end Member

/-! ## Items -/

namespace Declarations

def knownFeature : String := "expiration"

def declare (declarations : Declarations) : Item → Except Violation Declarations
  | .feature feature =>
      if feature.text == knownFeature then .ok { declarations with expiration := true }
      else .error (.unknownFeature feature)
  | .caveat caveat => do
      if !NameRule.allowsPath caveat.name.text.toList then
        throw (.malformedCaveatName caveat.name)
      if declarations.isTaken caveat.name.text then
        throw (.reusedName caveat.name)
      caveat.check
      pure { declarations with caveats := caveat.name.text :: declarations.caveats }
  | .definition definition => do
      if !NameRule.allowsPath definition.name.text.toList then
        throw (.malformedTypeName definition.name)
      if declarations.isTaken definition.name.text then
        throw (.reusedName definition.name)
      Member.checkNames definition.name.text [] definition.members
      pure { declarations with definitions := definition :: declarations.definitions }

def ofItems (items : List Item) : Except Violation Declarations :=
  items.foldlM declare empty

end Declarations
end PermissionTypes.Schema
