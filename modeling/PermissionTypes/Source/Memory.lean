import PermissionTypes.Source.Failure

/-! A source that holds its resources in memory. -/

namespace PermissionTypes.Source

structure Memory where
  resources : List (String × ByteArray)

namespace Memory

def empty : Memory where
  resources := []

/-- Adds a resource, or replaces the one of the same name. Any name is taken here. -/
def insert (memory : Memory) (name : String) (content : ByteArray) : Memory where
  resources := (name, content) :: memory.resources.filter (·.1 != name)

def read (memory : Memory) (name : String) : Except Failure ByteArray :=
  match ResourceName.check name.toList with
  | .error fault => .error (.invalidName name fault)
  | .ok () =>
      match memory.resources.lookup name with
      | some content => .ok content
      | none => .error (.notFound name)

end Memory
end PermissionTypes.Source
