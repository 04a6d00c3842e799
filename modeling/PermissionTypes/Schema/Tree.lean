/-! The tree of a schema text. It keeps what was written, in written order, and where each name
starts. -/

namespace PermissionTypes.Schema

structure Name where
  text : String
  offset : Nat
  deriving DecidableEq, Repr, Inhabited

/-! ## Permissions -/

inductive Arrow where
  | each
  | any
  | all
  deriving DecidableEq, Repr

inductive Expression where
  | nothing
  | member (name : Name)
  | walk (arrow : Arrow) (relation target : Name)
  | union (operands : List Expression)
  | intersection (operands : List Expression)
  | exclusion (base removed : Expression)
  deriving Repr, Inhabited

/-! ## Relations -/

/-- Which subjects of a type are meant: its objects, all of them at once (`:*`), or the subjects
of one of its relations (`#name`). -/
inductive Subject where
  | object
  | everyone
  | relation (name : Name)
  deriving DecidableEq, Repr

structure SubjectType where
  type : Name
  subject : Subject
  traits : List Name
  deriving DecidableEq, Repr

/-! ## Items -/

inductive Member where
  | relation (name : Name) (types : List SubjectType)
  | permission (name : Name) (expression : Expression)
  deriving Repr

namespace Member

def name : Member → Name
  | .relation name _ => name
  | .permission name _ => name

end Member

structure Definition where
  name : Name
  members : List Member
  deriving Repr

namespace Definition

def member? (definition : Definition) (name : String) : Option Member :=
  definition.members.find? fun member => member.name.text == name

end Definition

/-- A parameter of a caveat. Its type is the text as it was written. -/
structure Parameter where
  name : String
  type : String
  deriving DecidableEq, Repr

structure Caveat where
  name : Name
  parameters : List Parameter
  expression : String
  deriving DecidableEq, Repr

inductive Item where
  | feature (name : Name)
  | caveat (caveat : Caveat)
  | definition (definition : Definition)
  deriving Repr

end PermissionTypes.Schema
