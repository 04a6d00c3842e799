import PermissionTypes.ObjectModel
import PermissionTypes.Schema.Declarations

/-! References between declarations. Once every declaration is known, each name that is used has
to lead to one, and the items become an object model. -/

namespace PermissionTypes.Schema

namespace Declarations

/-! ## Relations -/

def expirationTrait : String := "expiration"

def checkTrait (declarations : Declarations) (type relation : String) (trait : Name) :
    Except Violation Unit :=
  if trait.text == expirationTrait then
    if declarations.expiration then .ok () else .error (.expirationNotEnabled trait)
  else if declarations.caveats.contains trait.text then .ok ()
  else .error (.unknownCaveat type relation trait)

def checkSubjectRelation (type relation : String) (target : Definition) :
    Subject → Except Violation Unit
  | .object => .ok ()
  | .everyone => .ok ()
  | .relation name =>
      if (target.member? name.text).isSome then .ok ()
      else .error (.unknownSubjectRelation type relation target.name.text name)

def checkSubjectType (declarations : Declarations) (type relation : String)
    (subject : SubjectType) : Except Violation Unit :=
  match declarations.definition? subject.type.text with
  | none => .error (.unknownSubjectType type relation subject.type)
  | some target => do
      checkSubjectRelation type relation target subject.subject
      subject.traits.forM (declarations.checkTrait type relation)

/-! ## Permissions -/

/-- The definitions that a walk along a relation leads to. One that stands for everyone leads
nowhere. -/
def walkTargets (declarations : Declarations) (types : List SubjectType) : List Definition :=
  (types.filter fun subject => subject.subject != .everyone).filterMap fun subject =>
    declarations.definition? subject.type.text

def checkWalk (declarations : Declarations) (definition : Definition) (permission : String)
    (arrow : Arrow) (relation target : Name) : Except Violation Unit :=
  match definition.member? relation.text with
  | none => .error (.unknownMember definition.name.text permission relation)
  | some (.permission _ _) =>
      .error (.walkFromPermission definition.name.text permission arrow relation)
  | some (.relation _ types) =>
      let targets := declarations.walkTargets types
      if targets.isEmpty || targets.any fun type => (type.member? target.text).isSome then
        .ok ()
      else .error (.unreachableTarget definition.name.text permission relation.text target)

mutual
def checkExpression (declarations : Declarations) (definition : Definition)
    (permission : String) : Expression → Except Violation Unit
  | .nothing => .ok ()
  | .member name =>
      if (definition.member? name.text).isSome then .ok ()
      else .error (.unknownMember definition.name.text permission name)
  | .walk arrow relation target =>
      declarations.checkWalk definition permission arrow relation target
  | .union operands => declarations.checkOperands definition permission operands
  | .intersection operands => declarations.checkOperands definition permission operands
  | .exclusion base removed => do
      declarations.checkExpression definition permission base
      declarations.checkExpression definition permission removed

def checkOperands (declarations : Declarations) (definition : Definition)
    (permission : String) : List Expression → Except Violation Unit
  | [] => .ok ()
  | operand :: operands => do
      declarations.checkExpression definition permission operand
      declarations.checkOperands definition permission operands
end

/-! ## The object model -/

def resolveMember (declarations : Declarations) (definition : Definition) :
    Member → Except Violation ObjectMember
  | .relation name types => do
      types.forM (declarations.checkSubjectType definition.name.text name.text)
      pure { name := name.text, kind := .relation }
  | .permission name expression => do
      declarations.checkExpression definition name.text expression
      pure { name := name.text, kind := .permission }

def resolveDefinition (declarations : Declarations) (definition : Definition) :
    Except Violation ObjectType := do
  let members ← definition.members.mapM (declarations.resolveMember definition)
  pure { name := definition.name.text, members }

def resolve (declarations : Declarations) : List Item → Except Violation ObjectModel
  | [] => .ok .empty
  | .feature _ :: items => declarations.resolve items
  | .caveat caveat :: items => do
      let model ← declarations.resolve items
      pure { model with caveats := caveat.name.text :: model.caveats }
  | .definition definition :: items => do
      let object ← declarations.resolveDefinition definition
      let model ← declarations.resolve items
      pure { model with types := object :: model.types }

end Declarations

def check (items : List Item) : Except Violation ObjectModel := do
  let declarations ← Declarations.ofItems items
  declarations.resolve items

end PermissionTypes.Schema
