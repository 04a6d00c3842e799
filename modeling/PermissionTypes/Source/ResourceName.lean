import PermissionTypes.Text.Split

/-! Names of resources. A name is a relative path that says the same wherever it starts, so it
leads neither out of a directory nor around in it. -/

namespace PermissionTypes.Source

open Text (split)

inductive NameFault where
  | empty
  | backslash
  | absolute
  | emptyElement
  | dotElement
  deriving DecidableEq, Repr

namespace NameFault

def describe : NameFault → String
  | .empty => "name is empty"
  | .backslash => "backslashes are not allowed"
  | .absolute => "absolute paths are not allowed"
  | .emptyElement => "empty path elements are not allowed"
  | .dotElement => "'.' and '..' path elements are not allowed"

end NameFault

namespace ResourceName

def checkElement (element : List Char) : Except NameFault Unit :=
  if element = [] then .error .emptyElement
  else if element = ['.'] ∨ element = ['.', '.'] then .error .dotElement
  else .ok ()

def check (name : List Char) : Except NameFault Unit := do
  if name = [] then throw .empty
  if '\\' ∈ name then throw .backslash
  if name.head? = some '/' then throw .absolute
  (split '/' name).forM checkElement

end ResourceName
end PermissionTypes.Source
