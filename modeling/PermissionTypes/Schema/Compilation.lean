import PermissionTypes.Schema.References
import PermissionTypes.Schema.Text

/-! Compilation of schema text. -/

namespace PermissionTypes.Schema

def compile (schema : String) : Except Diagnostic ObjectModel :=
  match parse schema with
  | .error diagnostic => .error diagnostic
  | .ok items =>
      match check items with
      | .error violation => .error (violation.diagnostic schema)
      | .ok model => .ok model

end PermissionTypes.Schema
