import PermissionTypes.Diagnostic
import PermissionTypes.Schema.NameRule
import PermissionTypes.Schema.Tree

/-! Violations: the ways in which a schema can be wrong although its text can be read. -/

namespace PermissionTypes.Schema

namespace Arrow

def describe : Arrow → String
  | .each => "an arrow"
  | .any => "`.any`"
  | .all => "`.all`"

end Arrow

/-- What is wrong. The names with a place are those that a violation is about. The others say
where it was found. -/
inductive Violation where
  | unknownFeature (feature : Name)
  | malformedCaveatName (caveat : Name)
  | malformedTypeName (type : Name)
  | reusedName (name : Name)
  | repeatedParameter (caveat : Name) (parameter : String)
  | unknownParameterType (caveat : Name) (parameter : Parameter)
  | blankExpression (caveat : Name)
  | malformedMemberName (type : String) (member : Name)
  | repeatedMember (type : String) (member : Name)
  | unknownSubjectType (type relation : String) (subject : Name)
  | unknownSubjectRelation (type relation subjectType : String) (subjectRelation : Name)
  | expirationNotEnabled (trait : Name)
  | unknownCaveat (type relation : String) (trait : Name)
  | unknownMember (type permission : String) (member : Name)
  | walkFromPermission (type permission : String) (arrow : Arrow) (member : Name)
  | unreachableTarget (type permission relation : String) (target : Name)
  deriving DecidableEq, Repr

namespace Violation

def name : Violation → Name
  | .unknownFeature feature => feature
  | .malformedCaveatName caveat => caveat
  | .malformedTypeName type => type
  | .reusedName name => name
  | .repeatedParameter caveat _ => caveat
  | .unknownParameterType caveat _ => caveat
  | .blankExpression caveat => caveat
  | .malformedMemberName _ member => member
  | .repeatedMember _ member => member
  | .unknownSubjectType _ _ subject => subject
  | .unknownSubjectRelation _ _ _ subjectRelation => subjectRelation
  | .expirationNotEnabled trait => trait
  | .unknownCaveat _ _ trait => trait
  | .unknownMember _ _ member => member
  | .walkFromPermission _ _ _ member => member
  | .unreachableTarget _ _ _ target => target

def ticked (name : String) : String :=
  "`" ++ name ++ "`"

def memberOf (type member : String) : String :=
  ticked (type ++ "#" ++ member)

def describe : Violation → String
  | .unknownFeature feature => "unknown feature " ++ ticked feature.text
  | .malformedCaveatName caveat =>
      "invalid caveat name " ++ ticked caveat.text ++ ": " ++ NameRule.describe
  | .malformedTypeName type =>
      "invalid definition name " ++ ticked type.text ++ ": " ++ NameRule.describe
  | .reusedName name =>
      "found name reused between multiple definitions and/or caveats: " ++ ticked name.text
  | .repeatedParameter caveat parameter =>
      "duplicate parameter " ++ ticked parameter ++ " in caveat " ++ ticked caveat.text
  | .unknownParameterType caveat parameter =>
      "unknown type " ++ ticked parameter.type ++ " for parameter " ++ ticked parameter.name ++
        " in caveat " ++ ticked caveat.text
  | .blankExpression caveat => "caveat " ++ ticked caveat.text ++ " has an empty expression"
  | .malformedMemberName type member =>
      "invalid relation/permission name " ++ ticked member.text ++ " under definition " ++
        ticked type ++ ": " ++ NameRule.describe
  | .repeatedMember type member =>
      "found duplicate relation/permission name " ++ ticked member.text ++
        " under definition " ++ ticked type
  | .unknownSubjectType type relation subject =>
      "relation " ++ memberOf type relation ++ " references unknown definition " ++
        ticked subject.text
  | .unknownSubjectRelation type relation subjectType subjectRelation =>
      "relation " ++ memberOf type relation ++
        " references unknown relation or permission " ++
        memberOf subjectType subjectRelation.text
  | .expirationNotEnabled _ =>
      "expiration trait is not enabled; add `use expiration` to the schema"
  | .unknownCaveat type relation trait =>
      "relation " ++ memberOf type relation ++ " references unknown caveat " ++
        ticked trait.text
  | .unknownMember type permission member =>
      "under permission " ++ memberOf type permission ++ ": relation or permission " ++
        ticked member.text ++ " not found"
  | .walkFromPermission type permission arrow member =>
      "under permission " ++ memberOf type permission ++
        ": permissions cannot be used on the left side of " ++ arrow.describe ++ ": " ++
        ticked member.text
  | .unreachableTarget type permission relation target =>
      "under permission " ++ memberOf type permission ++ ": " ++ ticked target.text ++
        " is not defined on any subject type of relation " ++ ticked relation

def diagnostic (violation : Violation) (schema : String) : Diagnostic :=
  .atOffset violation.describe schema violation.name.offset

end Violation
end PermissionTypes.Schema
