import PermissionTypes.ClientModule
import PermissionTypes.Diagnostic
import PermissionTypes.Source.Failure

/-! Generation: from the content of a schema file to the client module. -/

namespace PermissionTypes

inductive GenerationFailure where
  | reading (file : String) (cause : Source.Failure)
  | compiling (file : String) (cause : Diagnostic)
  deriving DecidableEq, Repr

namespace GenerationFailure

def describe : GenerationFailure → String
  | .reading file _ => "could not read schema '" ++ file ++ "'"
  | .compiling file _ => "error compiling schema '" ++ file ++ "'"

def describeCause : GenerationFailure → String
  | .reading _ cause => cause.describe
  | .compiling _ cause => cause.describe

end GenerationFailure

abbrev Compiler := String → Except Diagnostic ObjectModel

namespace Generation

def load (file : String) (content : Except Source.Failure ByteArray) :
    Except Source.Failure String := do
  match String.fromUTF8? (← content) with
  | some text => pure text
  | none => throw (.notText file)

theorem load_toUTF8 (file text : String) : load file (.ok text.toUTF8) = .ok text := by
  have decoded : String.fromUTF8? text.toUTF8 = some text := dif_pos text.isValidUTF8
  simp only [load, bind, Except.bind, decoded, pure, Except.pure]

def clientModule (compile : Compiler) (file : String)
    (content : Except Source.Failure ByteArray) : Except GenerationFailure String :=
  match load file content with
  | .error cause => .error (.reading file cause)
  | .ok text =>
      match compile text with
      | .error cause => .error (.compiling file cause)
      | .ok model => .ok (ClientModule.text model.types)

end Generation
end PermissionTypes
