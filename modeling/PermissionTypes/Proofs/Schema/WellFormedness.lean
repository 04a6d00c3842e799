import PermissionTypes.Schema.References

/-! Well-formed schemas: what the items of a schema have to be, without any order in which it is
found out. -/

namespace PermissionTypes.Schema

open NameRule (isLower isLowerOrDigit)

/-! ## Names -/

/-- A lowercase letter, 1 to 62 lowercase letters, digits or underscores, and a lowercase letter or
digit. -/
def IsDeclaredName (text : List Char) : Prop :=
  ∃ first middle last, text = first :: (middle ++ [last]) ∧ isLower first = true ∧
    1 ≤ middle.length ∧ middle.length ≤ 62 ∧
    (∀ character ∈ middle, isLowerOrDigit character = true ∨ character = '_') ∧
    isLowerOrDigit last = true

def IsDeclaredPath (text : List Char) : Prop :=
  ∃ names : List (List Char), names ≠ [] ∧ (∀ name ∈ names, IsDeclaredName name) ∧
    text = Text.join ['/'] names

/-! ## Declarations -/

def Parameter.HasKnownType (parameter : Parameter) : Prop :=
  ∃ type ∈ Parameter.knownTypes, ∃ arguments,
    parameter.type.toList = type.toList ++ arguments ∧
      (arguments = [] ∨ arguments.head? = some '<')

structure Caveat.WellFormed (caveat : Caveat) : Prop where
  name : IsDeclaredPath caveat.name.text.toList
  distinct : (caveat.parameters.map (·.name)).Nodup
  known : ∀ parameter ∈ caveat.parameters, parameter.HasKnownType
  expression : ∃ character ∈ caveat.expression.toList, Text.isBlankCharacter character = false

structure Definition.WellFormed (definition : Definition) : Prop where
  name : IsDeclaredPath definition.name.text.toList
  names : ∀ member ∈ definition.members, IsDeclaredName member.name.text.toList
  distinct : (definition.members.map (·.name.text)).Nodup

def Item.WellFormed : Item → Prop
  | .feature name => name.text = "expiration"
  | .caveat declared => declared.WellFormed
  | .definition declared => declared.WellFormed

def Item.declared? : Item → Option String
  | .feature _ => none
  | .caveat declared => some declared.name.text
  | .definition declared => some declared.name.text

def declaredNames (items : List Item) : List String :=
  items.filterMap Item.declared?

/-! ## References -/

def Defines (items : List Item) (name : String) (definition : Definition) : Prop :=
  .definition definition ∈ items ∧ definition.name.text = name

def Definition.HasMember (definition : Definition) (name : String) : Prop :=
  ∃ member ∈ definition.members, member.name.text = name

/-- The trait of expiring needs the feature, and all other traits are caveats. -/
def TraitResolves (items : List Item) (trait : Name) : Prop :=
  (trait.text = "expiration" ∧ ∃ feature, .feature feature ∈ items) ∨
    (trait.text ≠ "expiration" ∧
      ∃ caveat : Caveat, .caveat caveat ∈ items ∧ caveat.name.text = trait.text)

structure SubjectType.Resolves (items : List Item) (subjects : SubjectType) : Prop where
  defined : ∃ target, Defines items subjects.type.text target ∧
    ∀ name, subjects.subject = .relation name → target.HasMember name.text
  traits : ∀ trait ∈ subjects.traits, TraitResolves items trait

/-- Some object that the subjects can be has a member of the name, or there are no objects but only
everyone. -/
def WalkArrives (items : List Item) (types : List SubjectType) (target : String) : Prop :=
  (∀ subjects ∈ types, subjects.subject = .everyone) ∨
    ∃ subjects ∈ types, subjects.subject ≠ .everyone ∧
      ∃ definition, Defines items subjects.type.text definition ∧ definition.HasMember target

inductive Expression.Resolves (items : List Item) (definition : Definition) : Expression → Prop
  | nothing : Resolves items definition .nothing
  | member {name : Name} (found : definition.HasMember name.text) :
      Resolves items definition (.member name)
  | walk {arrow : Arrow} {name relation target : Name} {types : List SubjectType}
      (found : .relation relation types ∈ definition.members) (same : relation.text = name.text)
      (arrives : WalkArrives items types target.text) :
      Resolves items definition (.walk arrow name target)
  | union {operands : List Expression}
      (resolve : ∀ operand ∈ operands, Resolves items definition operand) :
      Resolves items definition (.union operands)
  | intersection {operands : List Expression}
      (resolve : ∀ operand ∈ operands, Resolves items definition operand) :
      Resolves items definition (.intersection operands)
  | exclusion {base removed : Expression} (baseResolves : Resolves items definition base)
      (removedResolves : Resolves items definition removed) :
      Resolves items definition (.exclusion base removed)

def Member.Resolves (items : List Item) (definition : Definition) : Member → Prop
  | .relation _ types => ∀ subjects ∈ types, subjects.Resolves items
  | .permission _ expression => expression.Resolves items definition

/-! ## Schemas -/

structure WellFormed (items : List Item) : Prop where
  each : ∀ item ∈ items, item.WellFormed
  distinct : (declaredNames items).Nodup
  references : ∀ definition : Definition, .definition definition ∈ items →
    ∀ member ∈ definition.members, member.Resolves items definition

/-! ## Projections -/

def Member.object : Member → ObjectMember
  | .relation name _ => { name := name.text, kind := .relation }
  | .permission name _ => { name := name.text, kind := .permission }

def Definition.object (definition : Definition) : ObjectType where
  name := definition.name.text
  members := definition.members.map Member.object

def objectModel (items : List Item) : ObjectModel where
  types := items.filterMap fun
    | .definition definition => some definition.object
    | .feature _ => none
    | .caveat _ => none
  caveats := items.filterMap fun
    | .caveat caveat => some caveat.name.text
    | .feature _ => none
    | .definition _ => none

end PermissionTypes.Schema
