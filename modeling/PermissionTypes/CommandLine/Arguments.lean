import PermissionTypes.Text.Blank

/-! Arguments of the command line: a folder, the name of a schema file in it, and options among
them. The arguments are read from left to right, and a value is accepted only when the next
argument begins or the last one has been read. -/

namespace PermissionTypes.CommandLine

structure Arguments where
  folder : String
  schemaFile : String
  output : Option String
  verbosity : Nat
  deriving DecidableEq, Repr

inductive ArgumentFault where
  | helpRequested
  | versionRequested
  | missingPositional
  | blankPositional
  | unknownArgument
  | missingValue
  | unexpectedValue
  | repeatedOutput
  deriving DecidableEq, Repr

namespace Arguments

def greatestVerbosity : Nat := 255

/-! ## Reading state -/

/-- A value that is not accepted yet, or the place of one. -/
inductive Pending where
  | nothing
  | positional (value : List Char)
  | output (value : List Char)
  | outputExpected
  deriving DecidableEq, Repr

structure Reading where
  positionals : List (List Char)
  output : Option (List Char)
  verbosity : Nat
  pending : Pending
  optionsEnded : Bool
  deriving DecidableEq, Repr

namespace Reading

def start : Reading where
  positionals := []
  output := none
  verbosity := 0
  pending := .nothing
  optionsEnded := false

def settle (reading : Reading) : Except ArgumentFault Reading :=
  match reading.pending with
  | .nothing => .ok reading
  | .positional value =>
      if Text.isBlank value then .error .blankPositional
      else .ok {
        reading with
        positionals := reading.positionals ++ [value]
        pending := .nothing }
  | .output value =>
      if reading.output.isSome then .error .repeatedOutput
      else if value.isEmpty then .error .missingValue
      else .ok { reading with output := some value, pending := .nothing }
  | .outputExpected => .error .missingValue

/-! ## Options -/

def countVerbose (reading : Reading) : Except ArgumentFault Reading := do
  let reading ← reading.settle
  pure { reading with verbosity := min greatestVerbosity (reading.verbosity + 1) }

def request (reading : Reading) (asked : ArgumentFault) : Except ArgumentFault Reading := do
  let _ ← reading.settle
  throw asked

def takeOutput (reading : Reading) (value : List Char) : Except ArgumentFault Reading := do
  let reading ← reading.settle
  { reading with pending := .output value }.settle

def expectOutput (reading : Reading) : Except ArgumentFault Reading := do
  let reading ← reading.settle
  pure { reading with pending := .outputExpected }

def takeLong (reading : Reading) (text : List Char) : Except ArgumentFault Reading :=
  let name := String.ofList (text.takeWhile (· != '='))
  let value? := (text.dropWhile (· != '=')).tail?
  match name, value? with
  | "output", none => reading.expectOutput
  | "output", some value => reading.takeOutput value
  | "verbose", none => reading.countVerbose
  | "help", none => reading.request .helpRequested
  | "version", none => reading.request .versionRequested
  | _, none => .error .unknownArgument
  | _, some _ =>
      if name == "verbose" || name == "help" || name == "version" then .error .unexpectedValue
      else .error .unknownArgument

/-- Letters behind one dash. Everything behind an `o` is its value, with or without an equals sign
before it. -/
def takeLetters (reading : Reading) : List Char → Except ArgumentFault Reading
  | [] => .ok reading
  | ['o'] => reading.expectOutput
  | 'o' :: '=' :: value => reading.takeOutput value
  | 'o' :: value => reading.takeOutput value
  | 'v' :: letters => do
      let reading ← reading.countVerbose
      reading.takeLetters letters
  | 'h' :: _ => reading.request .helpRequested
  | 'V' :: _ => reading.request .versionRequested
  | _ :: _ => .error .unknownArgument

/-! ## Values -/

def begun (reading : Reading) : Nat :=
  match reading.pending with
  | .positional _ => reading.positionals.length + 1
  | _ => reading.positionals.length

def takePositional (reading : Reading) (value : List Char) : Except ArgumentFault Reading := do
  if 2 ≤ reading.begun then
    throw .unknownArgument
  let reading ← reading.settle
  pure { reading with pending := .positional value }

def takeValue (reading : Reading) (value : List Char) : Except ArgumentFault Reading :=
  if reading.pending = .outputExpected ∧ ¬reading.optionsEnded then
    .ok { reading with pending := .output value }
  else reading.takePositional value

def take (reading : Reading) (argument : List Char) : Except ArgumentFault Reading :=
  if reading.optionsEnded then reading.takeValue argument
  else
    match argument with
    | ['-', '-'] => .ok { reading with optionsEnded := true }
    | '-' :: '-' :: text => reading.takeLong text
    | '-' :: letter :: letters => reading.takeLetters (letter :: letters)
    | value => reading.takeValue value

def finish (reading : Reading) : Except ArgumentFault Arguments := do
  let reading ← reading.settle
  match reading.positionals with
  | [folder, schemaFile] =>
      pure {
        folder := String.ofList folder
        schemaFile := String.ofList schemaFile
        output := reading.output.map String.ofList
        verbosity := reading.verbosity }
  | _ => throw .missingPositional

end Reading

def ofList (arguments : List String) : Except ArgumentFault Arguments := do
  let reading ← arguments.foldlM (fun reading argument => reading.take argument.toList)
    Reading.start
  reading.finish

end Arguments
end PermissionTypes.CommandLine
