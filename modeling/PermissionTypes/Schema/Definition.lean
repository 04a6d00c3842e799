import PermissionTypes.Schema.Expression

/-! Definitions: object types with their relations and permissions. -/

namespace PermissionTypes.Schema

open Schema.Parser

/-! ## Relations -/

def subject : Parser Subject := do
  let written ← perhaps <|
    (do
      exactly [':', '*']
      pure Subject.everyone) <|>
    (do
      character '#'
      let name ← commit (named identifier)
      pure (Subject.relation name))
  pure (written.getD .object)

def traits : Parser (List Name) := do
  let written ← perhaps do
    gap
    keyword "with"
    gap
    commit (separated (do gap; keyword "and"; gap) (named typeName))
  pure (written.getD [])

def subjectType : Parser SubjectType :=
  within .subjectType do
    let type ← named typeName
    let subject ← subject
    let traits ← traits
    pure { type, subject, traits }

def relation : Parser Member := do
  keyword "relation"
  commit <| within .relation do
    gap
    let name ← named identifier
    trivia
    character ':'
    trivia
    let types ← separated (do trivia; character '|'; trivia) subjectType
    pure (.relation name types)

/-! ## Permissions -/

def permission : Parser Member := do
  keyword "permission"
  commit <| within .permission do
    gap
    let name ← named identifier
    trivia
    character '='
    trivia
    let expression ← expression
    pure (.permission name expression)

/-! ## Definitions -/

def member : Parser Member :=
  relation <|> permission

def definition : Parser Item := do
  keyword "definition"
  commit <| within .definition do
    gap
    let name ← named typeName
    trivia
    character '{'
    trivia
    let members ← many do
      let member ← member
      trivia
      pure member
    within .definitionBody (character '}')
    pure (.definition { name, members })

end PermissionTypes.Schema
