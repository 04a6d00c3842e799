import PermissionTypes.CommandLine.SettingPath

/-! Settings as a tree, which is grown by setting one path after another. -/

namespace PermissionTypes.CommandLine

inductive SettingTree where
  | absent
  | value (value : SettingValue)
  | group (entries : List (String × SettingTree))
  | sequence (elements : List SettingTree)

namespace SettingTree

def empty : SettingTree := .group []

/-! ## Groups -/

def entries : SettingTree → List (String × SettingTree)
  | .group entries => entries
  | _ => []

def below? (tree : SettingTree) (name : String) : Option SettingTree :=
  tree.entries.lookup name

def withEntry (tree : SettingTree) (name : String) (inner : SettingTree) : SettingTree :=
  .group ((name, inner) :: tree.entries.filter (·.1 != name))

/-! ## Sequences -/

def elements : SettingTree → List SettingTree
  | .sequence elements => elements
  | _ => []

/-- A sequence that is long enough for a position, and the index of that position in it. Elements
that are missing are added at the end, or before the beginning if the position lies there. -/
def reach (elements : List SettingTree) (position : Int) : Nat × List SettingTree :=
  match position with
  | .ofNat index => (index, elements ++ List.replicate (index + 1 - elements.length) .absent)
  | .negSucc fromEnd =>
      if fromEnd < elements.length then (elements.length - (fromEnd + 1), elements)
      else (0, List.replicate (fromEnd + 1 - elements.length) .absent ++ elements)

/-! ## Growing -/

/-- Sets the value at a path. What stands in the way gives place to a group or a sequence, and what
has stood at the end of the path is gone. -/
def set (value : SettingValue) : SettingPath → SettingTree → SettingTree
  | [], _ => .value value
  | .name name :: path, tree =>
      tree.withEntry name (set value path ((tree.below? name).getD .absent))
  | .position position :: path, tree =>
      let (index, elements) := reach tree.elements position
      .sequence (elements.set index (set value path (elements[index]?.getD .absent)))

def ofEnvironment (environment : List (String × String)) : SettingTree :=
  environment.foldl (fun tree (name, text) =>
    match SettingPath.ofVariable? name with
    | some path => tree.set (.ofText text) path
    | none => tree) empty

end SettingTree
end PermissionTypes.CommandLine
