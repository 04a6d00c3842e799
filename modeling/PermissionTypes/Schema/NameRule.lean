import PermissionTypes.Text.Split

/-! The rule for declared names. -/

namespace PermissionTypes.Schema.NameRule

open Text (split)

def isLower (character : Char) : Bool :=
  'a' ≤ character && character ≤ 'z'

def isLowerOrDigit (character : Char) : Bool :=
  isLower character || ('0' ≤ character && character ≤ '9')

def allows (name : List Char) : Bool :=
  3 ≤ name.length && name.length ≤ 64 &&
    name.head?.any isLower && name.getLast?.any isLowerOrDigit &&
    name.all fun character => isLowerOrDigit character || character == '_'

def allowsPath (name : List Char) : Bool :=
  (split '/' name).all allows

def describe : String :=
  "names must be 3 to 64 lowercase letters, digits or underscores, " ++
    "starting with a letter and not ending with an underscore"

end PermissionTypes.Schema.NameRule
