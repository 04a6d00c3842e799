import PermissionTypes.Proofs.Schema.ReferenceChecks
import PermissionTypes.Schema.Compilation

/-! A text compiles if and only if it can be read as the items of a well-formed schema. -/

namespace PermissionTypes.Schema

theorem compile_eq_ok_iff {schema : String} {model : ObjectModel} :
    compile schema = .ok model ↔
      ∃ items, parse schema = .ok items ∧ check items = .ok model := by
  rw [compile]
  cases parse schema with
  | error diagnostic => simp
  | ok items =>
      cases checked : check items with
      | error violation => simp [checked]
      | ok found => simp [checked]

theorem wellFormed_of_compile {schema : String} {model : ObjectModel}
    (compiled : compile schema = .ok model) :
    ∃ items, parse schema = .ok items ∧ WellFormed items ∧ model = objectModel items := by
  rcases compile_eq_ok_iff.mp compiled with ⟨items, read, checked⟩
  exact ⟨items, read, of_check checked⟩

theorem compile_of_wellFormed {schema : String} {items : List Item}
    (read : parse schema = .ok items) (wellFormed : WellFormed items) :
    compile schema = .ok (objectModel items) :=
  compile_eq_ok_iff.mpr ⟨items, read, check_of_wellFormed wellFormed⟩

end PermissionTypes.Schema
