import Mathlib.Data.List.Infix
import PermissionTypes.Proofs.Schema.DeclarationChecks
import PermissionTypes.Proofs.Schema.Uses

/-! All violations of a schema, in the order in which they count. Each requirement is looked at for
itself: what it needs to know is the schema and what is written before it, not what else has been
found to be wrong. -/

namespace PermissionTypes.Schema

/-! ## Requirements -/

def require (holds : Prop) [Decidable holds] (violation : Violation) : List Violation :=
  if holds then [] else [violation]

/-- What is found at each value, given the values before it. -/
def inOrder (find : List α → α → List β) (values : List α) : List β :=
  (values.inits.zip values).flatMap fun found => find found.1 found.2

theorem inOrder_cons (find : List α → α → List β) (value : α) (values : List α) :
    inOrder find (value :: values) =
      find [] value ++ inOrder (fun before => find (value :: before)) values := by
  simp [inOrder, List.zip_map_left, List.flatMap_map]

instance {text : List Char} : Decidable (IsDeclaredName text) :=
  decidable_of_iff _ isDeclaredName_iff

instance {text : List Char} : Decidable (IsDeclaredPath text) :=
  decidable_of_iff _ isDeclaredPath_iff

instance {parameter : Parameter} : Decidable parameter.HasKnownType :=
  decidable_of_iff _ Parameter.isKnown_iff

instance {text : List Char} :
    Decidable (∃ character ∈ text, Text.isBlankCharacter character = false) :=
  decidable_of_iff _ not_isBlank_iff

/-! ## Declarations -/

def Parameter.violations (caveat : Name) (before : List Parameter) (parameter : Parameter) :
    List Violation :=
  require (parameter.name ∉ before.map (·.name)) (.repeatedParameter caveat parameter.name) ++
    require parameter.HasKnownType (.unknownParameterType caveat parameter)

def Caveat.violations (taken : List String) (caveat : Caveat) : List Violation :=
  require (IsDeclaredPath caveat.name.text.toList) (.malformedCaveatName caveat.name) ++
    (require (caveat.name.text ∉ taken) (.reusedName caveat.name) ++
      (inOrder (Parameter.violations caveat.name) caveat.parameters ++
        require (∃ character ∈ caveat.expression.toList, Text.isBlankCharacter character = false)
          (.blankExpression caveat.name)))

def Member.nameViolations (type : String) (before : List Member) (member : Member) :
    List Violation :=
  require (IsDeclaredName member.name.text.toList) (.malformedMemberName type member.name) ++
    require (member.name.text ∉ before.map (·.name.text)) (.repeatedMember type member.name)

def Definition.nameViolations (taken : List String) (definition : Definition) : List Violation :=
  require (IsDeclaredPath definition.name.text.toList) (.malformedTypeName definition.name) ++
    (require (definition.name.text ∉ taken) (.reusedName definition.name) ++
      inOrder (Member.nameViolations definition.name.text) definition.members)

def Item.violations (before : List Item) : Item → List Violation
  | .feature name => require (name.text = "expiration") (.unknownFeature name)
  | .caveat declared => declared.violations (declaredNames before)
  | .definition declared => declared.nameViolations (declaredNames before)

def declarationViolations (items : List Item) : List Violation :=
  inOrder Item.violations items

/-! ## References -/

def Item.definition? : Item → Option Definition
  | .feature _ => none
  | .caveat _ => none
  | .definition declared => some declared

def definitionsOf (items : List Item) : List Definition :=
  items.filterMap Item.definition?

theorem mem_definitionsOf_iff {items : List Item} {definition : Definition} :
    definition ∈ definitionsOf items ↔ .definition definition ∈ items := by
  rw [definitionsOf, List.mem_filterMap]
  constructor
  · intro found
    rcases found with ⟨item, member, equal⟩
    cases item <;> cases equal
    exact member
  · intro member
    exact ⟨_, member, rfl⟩

def caveatsOf (items : List Item) : List String :=
  items.filterMap fun
    | .feature _ => none
    | .caveat caveat => some caveat.name.text
    | .definition _ => none

theorem mem_caveatsOf_iff {items : List Item} {name : String} :
    name ∈ caveatsOf items ↔
      ∃ caveat : Caveat, .caveat caveat ∈ items ∧ caveat.name.text = name := by
  rw [caveatsOf, List.mem_filterMap]
  constructor
  · intro found
    rcases found with ⟨item, member, equal⟩
    cases item <;> cases equal
    exact ⟨_, member, rfl⟩
  · intro declared
    rcases declared with ⟨caveat, member, same⟩
    exact ⟨_, member, congrArg some same⟩

section Deciding

variable {items : List Item} {name : String}

instance {definition : Definition} : Decidable (definition.HasMember name) :=
  inferInstanceAs (Decidable (∃ member ∈ definition.members, member.name.text = name))

instance {holds : Definition → Prop} [DecidablePred holds] :
    Decidable (∃ definition, Defines items name definition ∧ holds definition) :=
  decidable_of_iff
    (∃ definition ∈ definitionsOf items, definition.name.text = name ∧ holds definition)
    (by simp only [mem_definitionsOf_iff, Defines, and_assoc])

instance : Decidable (∃ definition, Defines items name definition) :=
  decidable_of_iff (∃ definition, Defines items name definition ∧ True) (by simp)

instance : Decidable (∃ feature, .feature feature ∈ items) :=
  decidable_of_iff (items.any fun | .feature _ => true | _ => false) (by
    rw [List.any_eq_true]
    constructor
    · rintro ⟨item, member, isFeature⟩
      cases item <;> cases isFeature
      exact ⟨_, member⟩
    · rintro ⟨feature, member⟩
      exact ⟨_, member, rfl⟩)

instance {trait : Name} : Decidable (TraitResolves items trait) :=
  decidable_of_iff
    ((trait.text = "expiration" ∧ ∃ feature, .feature feature ∈ items) ∨
      (trait.text ≠ "expiration" ∧ trait.text ∈ caveatsOf items))
    (by simp only [mem_caveatsOf_iff, TraitResolves])

instance {types : List SubjectType} : Decidable (ArrivesAtObject items types name) :=
  inferInstanceAs (Decidable (∃ subjects ∈ types, subjects.subject ≠ .everyone ∧
    ∃ definition, Defines items subjects.type.text definition ∧ definition.HasMember name))

end Deciding

def traitViolations (items : List Item) (type relation : String) (trait : Name) :
    List Violation :=
  require (TraitResolves items trait)
    (if trait.text = "expiration" then .expirationNotEnabled trait
      else .unknownCaveat type relation trait)

def Subject.violations (items : List Item) (type relation subjectType : String) :
    Subject → List Violation
  | .object => []
  | .everyone => []
  | .relation name =>
      require (∃ target, Defines items subjectType target ∧ target.HasMember name.text)
        (.unknownSubjectRelation type relation subjectType name)

def SubjectType.violations (items : List Item) (type relation : String) (subjects : SubjectType) :
    List Violation :=
  require (∃ target, Defines items subjects.type.text target)
      (.unknownSubjectType type relation subjects.type) ++
    (subjects.subject.violations items type relation subjects.type.text ++
      subjects.traits.flatMap (traitViolations items type relation))

/-- A walk is judged by the objects it can lead to. Everyone is no object, and a type that is not
defined is a violation of its own. -/
def WalkIsPlausible (items : List Item) (types : List SubjectType) (target : String) : Prop :=
  (∀ subjects ∈ types, subjects.subject ≠ .everyone →
    ¬ ∃ definition, Defines items subjects.type.text definition) ∨
    ArrivesAtObject items types target

instance {items : List Item} {types : List SubjectType} {target : String} :
    Decidable (WalkIsPlausible items types target) :=
  inferInstanceAs (Decidable (_ ∨ _))

def Use.violations (items : List Item) (definition : Definition) (permission : String) :
    Use → List Violation
  | .member name =>
      require (definition.HasMember name.text)
        (.unknownMember definition.name.text permission name)
  | .walk arrow name target =>
      match definition.member? name.text with
      | none => [.unknownMember definition.name.text permission name]
      | some (.permission _ _) =>
          [.walkFromPermission definition.name.text permission arrow name]
      | some (.relation _ types) =>
          require (WalkIsPlausible items types target.text)
            (.unreachableTarget definition.name.text permission name.text target)

def Member.violations (items : List Item) (definition : Definition) : Member → List Violation
  | .relation name types =>
      types.flatMap (SubjectType.violations items definition.name.text name.text)
  | .permission name expression =>
      expression.uses.flatMap (Use.violations items definition name.text)

def Definition.violations (items : List Item) (definition : Definition) : List Violation :=
  definition.members.flatMap (Member.violations items definition)

def referenceViolations (items : List Item) : List Violation :=
  (definitionsOf items).flatMap (Definition.violations items)

/-! ## Schemas -/

/-- No reference is looked at before all declarations are. -/
def violations (items : List Item) : List Violation :=
  declarationViolations items ++ referenceViolations items

end PermissionTypes.Schema
