import PermissionTypes.Proofs.GeneratedModule
import PermissionTypes.Proofs.Schema.Concatenation

/-! The lines of the permission map in a generated module, and where they come from when a schema is
made of two. -/

namespace PermissionTypes

open Schema

namespace PermissionMap

def entryLines (map : PermissionMap) : List (List Char) :=
  map.entries.map entryLine

theorem entryLines_ofTypes_append (types more : List ObjectType) :
    (ofTypes (types ++ more)).entryLines =
      (ofTypes types).entryLines ++ (ofTypes more).entryLines := by
  simp only [entryLines, ofTypes, List.map_append]

end PermissionMap

namespace ClientModule

/-- The module that has certain lines between the braces of its permission map. -/
def ofEntryLines (lines : List (List Char)) : String :=
  importLine ++ "\n\n" ++
    String.ofList (PermissionMap.header.toList ++ lines.flatten ++ ['\n', '}', '\n']) ++ "\n" ++
    resourceTypeLine ++ "\n\n" ++ "\n".intercalate requestClass

theorem text_eq_ofEntryLines (types : List ObjectType) :
    text types = ofEntryLines (PermissionMap.ofTypes types).entryLines := by
  rw [text, PermissionMap.describe, PermissionMap.characters, List.flatMap_def]
  rfl

end ClientModule

namespace Generation

open PermissionMap (ofTypes)
open ClientModule (ofEntryLines)

/-- Two schemas that share no names can be written one behind the other, with a line end between
them. The whole is accepted, it declares what the two declare, in this order, and the lines of its
permission map are those of the two. Nothing at the end of the first text, such as a comment without
the end of its line, reaches into the second one. -/
theorem clientModule_concatenation {first second : String} {firstModel secondModel : ObjectModel}
    (firstCompiled : compile first = .ok firstModel)
    (secondCompiled : compile second = .ok secondModel)
    (apart : ∀ name ∈ firstModel.names, name ∉ secondModel.names) (file : String) :
    compile (first ++ "\n" ++ second) = .ok {
        types := firstModel.types ++ secondModel.types
        caveats := firstModel.caveats ++ secondModel.caveats } ∧
      clientModule compile file (.ok first.toUTF8) =
        .ok (ofEntryLines (ofTypes firstModel.types).entryLines) ∧
      clientModule compile file (.ok second.toUTF8) =
        .ok (ofEntryLines (ofTypes secondModel.types).entryLines) ∧
      clientModule compile file (.ok (first ++ "\n" ++ second).toUTF8) =
        .ok (ofEntryLines
          ((ofTypes firstModel.types).entryLines ++ (ofTypes secondModel.types).entryLines)) := by
  have wholeCompiled := compile_append firstCompiled secondCompiled apart
  refine ⟨wholeCompiled, ?_, ?_, ?_⟩
  · rw [clientModule_of_compile firstCompiled, ClientModule.text_eq_ofEntryLines]
  · rw [clientModule_of_compile secondCompiled, ClientModule.text_eq_ofEntryLines]
  · rw [clientModule_of_compile wholeCompiled, ClientModule.text_eq_ofEntryLines,
      PermissionMap.entryLines_ofTypes_append]

/-! ### A schema that ends in a comment, and one that begins with a caveat -/

def openedText : String :=
  "definition doc/user\x7b\x7d//use"

def guardedText : String :=
  "caveat cav(a int)\x7ba\x7duse expiration definition doc/page\x7b" ++
    "relation own:doc/page with cav permission view=own\x7d"

def openedTypes : List ObjectType := [{ name := "doc/user", members := [] }]

def guardedTypes : List ObjectType := [{
  name := "doc/page"
  members := [{ name := "own", kind := .relation }, { name := "view", kind := .permission }] }]

theorem compile_openedText :
    compile openedText = .ok { types := openedTypes, caveats := [] } := by
  with_unfolding_all rfl

theorem compile_guardedText :
    compile guardedText = .ok { types := guardedTypes, caveats := ["cav"] } := by
  with_unfolding_all rfl

def openedLine : List Char := "\n  \"doc/user\": \"\",".toList

def guardedLine : List Char := "\n  \"doc/page\": \"view\",".toList

theorem entryLines_openedTypes : (ofTypes openedTypes).entryLines = [openedLine] := by
  decide

theorem entryLines_guardedTypes : (ofTypes guardedTypes).entryLines = [guardedLine] := by
  decide

theorem clientModule_concatenation_sample :
    compile (openedText ++ "\n" ++ guardedText) =
        .ok { types := openedTypes ++ guardedTypes, caveats := ["cav"] } ∧
      clientModule compile "schema" (.ok openedText.toUTF8) = .ok (ofEntryLines [openedLine]) ∧
      clientModule compile "schema" (.ok guardedText.toUTF8) = .ok (ofEntryLines [guardedLine]) ∧
      clientModule compile "schema" (.ok (openedText ++ "\n" ++ guardedText).toUTF8) =
        .ok (ofEntryLines [openedLine, guardedLine]) := by
  have apart : ∀ name ∈ ["doc/user"], name ∉ ["doc/page", "cav"] := by decide
  rcases clientModule_concatenation compile_openedText compile_guardedText apart "schema" with
    ⟨compiled, opened, guarded, whole⟩
  rw [entryLines_openedTypes] at opened whole
  rw [entryLines_guardedTypes] at guarded whole
  exact ⟨compiled, opened, guarded, whole⟩

end Generation
end PermissionTypes
