import PermissionTypes.Schema.Tree
import PermissionTypes.Schema.Trivia

/-! Words: identifiers, names of types, and keywords. -/

namespace PermissionTypes.Schema

open Schema.Parser

def isLetter (character : Char) : Bool :=
  character.isAlpha

def isWordCharacter (character : Char) : Bool :=
  character.isAlphanum || character == '_'

def identifier : Parser (List Char) :=
  within .identifier do
    let first ← oneOf isLetter
    let more ← takeWhile isWordCharacter
    pure (first :: more)

/-! The name of a type is a path of identifiers, as in `acme/document`. A slash that no identifier
follows is not part of it. -/

def typeName : Parser (List Char) :=
  within .typeName do
    let first ← identifier
    let more ← many do
      character '/'
      identifier
    pure (first ++ more.flatMap ('/' :: ·))

def keyword (word : String) : Parser Unit := do
  exactly word.toList
  notBefore isWordCharacter

def named (parser : Parser (List Char)) : Parser Name := do
  let start ← offset
  let text ← parser
  pure { text := String.ofList text, offset := start }

end PermissionTypes.Schema
