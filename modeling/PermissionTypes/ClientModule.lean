import PermissionTypes.PermissionMap

/-! The module that clients import: the permission map of a schema, the type of its keys, and a
class that builds permission requests from the two. -/

namespace PermissionTypes.ClientModule

def clientLibrary : String := "@authzed/authzed-node"

def importLine : String :=
  "import \x7b v1 \x7d from \"" ++ clientLibrary ++ "\";"

def resourceTypeLine : String :=
  "type ResourceType = keyof ResourcePermissionMap;"

/-! A request keeps the type of its resource, so that only a permission of that type can be asked
for, and it cannot be built before it is complete. -/

def requestClass : List String := [
    "export class PermissionRequest<S extends ResourceType, R extends ResourceType> \x7b",
    "  private subject?: v1.SubjectReference;",
    "  private resource?: v1.ObjectReference;",
    "  private permission?: ResourcePermissionMap[R];",
    "",
    "  from(type: S, id: string): PermissionRequest<S, R> \x7b",
    "    this.subject = \x7b",
    "      object: \x7b",
    "        objectType: type,",
    "        objectId: id",
    "      \x7d",
    "    \x7d as v1.SubjectReference;",
    "",
    "    return this;",
    "  \x7d",
    "",
    "  to(type: R, id: string): PermissionRequest<S, R> \x7b",
    "    this.resource = \x7b",
    "      objectType: type,",
    "      objectId: id",
    "    \x7d;",
    "    return this;",
    "  \x7d",
    "",
    "  withPermission(permission: ResourcePermissionMap[R]): PermissionRequest<S, R> \x7b",
    "    this.permission = permission;",
    "    return this;",
    "  \x7d",
    "",
    "  build(): v1.CheckPermissionRequest \x7b",
    "    if (!this.subject || !this.resource || !this.permission) \x7b",
    "      throw new Error('Incomplete permission request');",
    "    \x7d",
    "    return v1.CheckPermissionRequest.create(\x7b",
    "      resource: this.resource,",
    "      permission: this.permission,",
    "      subject: this.subject,",
    "    \x7d)",
    "  \x7d",
    "\x7d;"]

def text (types : List ObjectType) : String :=
  importLine ++ "\n\n" ++ (PermissionMap.ofTypes types).describe ++ "\n" ++
    resourceTypeLine ++ "\n\n" ++ "\n".intercalate requestClass

end PermissionTypes.ClientModule
