/-! The object model: what remains of a schema once it has been checked. Each object type has
members in declared order, and only permissions can be asked for by clients. -/

namespace PermissionTypes

inductive MemberKind where
  | relation
  | permission
  deriving DecidableEq, Repr

structure ObjectMember where
  name : String
  kind : MemberKind
  deriving DecidableEq, Repr

structure ObjectType where
  name : String
  members : List ObjectMember
  deriving DecidableEq, Repr

namespace ObjectType

def ofName (name : String) : ObjectType where
  name := name
  members := []

def push (object : ObjectType) (member : ObjectMember) : ObjectType :=
  { object with members := object.members ++ [member] }

def withRelation (object : ObjectType) (name : String) : ObjectType :=
  object.push { name, kind := .relation }

def withPermission (object : ObjectType) (name : String) : ObjectType :=
  object.push { name, kind := .permission }

def permissions (object : ObjectType) : List String :=
  object.members.filterMap fun member =>
    match member.kind with
    | .relation => none
    | .permission => some member.name

@[simp] theorem permissions_ofName (name : String) : (ofName name).permissions = [] := rfl

@[simp] theorem permissions_withRelation (object : ObjectType) (name : String) :
    (object.withRelation name).permissions = object.permissions := by
  simp [permissions, withRelation, push]

@[simp] theorem permissions_withPermission (object : ObjectType) (name : String) :
    (object.withPermission name).permissions = object.permissions ++ [name] := by
  simp [permissions, withPermission, push]

end ObjectType

structure ObjectModel where
  types : List ObjectType
  caveats : List String
  deriving DecidableEq, Repr

namespace ObjectModel

def empty : ObjectModel where
  types := []
  caveats := []

def ofTypes (types : List ObjectType) : ObjectModel where
  types := types
  caveats := []

end ObjectModel
end PermissionTypes
