import PermissionTypes.CommandLine.Usage

/-! The program: a session on the files of the system, with the arguments and the environment that
it was started with. The exit code tells how it went. -/

namespace PermissionTypes.CommandLine

/-! ## The machine as a host -/

namespace Machine

def reason? : IO.Error → Option (UInt32 × String)
  | .noFileOrDirectory _ number words => some (number, words)
  | .inappropriateType _ number words => some (number, words)
  | .invalidArgument _ number words => some (number, words)
  | .permissionDenied _ number words => some (number, words)
  | .resourceExhausted _ number words => some (number, words)
  | .otherError number words => some (number, words)
  | _ => none

def faultOf (error : IO.Error) : FileFault :=
  match reason? error with
  | some (2, _) => .missing
  | some (20, _) => .notDirectory
  | some (21, _) => .isDirectory
  | some (36, _) => .nameTooLong
  | some (number, words) => .other (words ++ " (os error " ++ toString number ++ ")")
  | none => .other (toString error)

/-- Uses the file of a path, unless no file can have that path. -/
def useFile (path : Path) (action : String → IO α) : IO (Except FileFault α) := do
  if path.text.contains '\x00' then
    return .error .nulCharacter
  try
    return .ok (← action (String.ofList path.text))
  catch error =>
    return .error (faultOf error)

def readBytes (name : String) : IO ByteArray := do
  let handle ← IO.FS.Handle.mk name .read
  handle.readBinToEnd

def print (text : String) : IO (Except String Unit) := do
  try
    let output ← IO.getStdout
    output.putStr text
    output.flush
    return .ok ()
  catch error =>
    return .error (faultOf error).describe

def host : Host IO where
  readFile path := useFile path readBytes
  writeFile path content := useFile path fun name => IO.FS.writeBinFile name content
  print := print

/-! ## The environment -/

def environmentFile : String := "/proc/self/environ"

def variableOf (text : List Char) : String × String :=
  (String.ofList (text.takeWhile (· != '=')), String.ofList ((text.dropWhile (· != '=')).drop 1))

def environment : IO (List (String × String)) := do
  match ← useFile (.ofString environmentFile) readBytes with
  | .error _ => return []
  | .ok content =>
      let text := ((String.fromUTF8? content).getD "").toList
      return ((Text.split '\x00' text).filter (!·.isEmpty)).map variableOf

end Machine

/-! ## Exit codes -/

def succeeded : UInt32 := 0

def failed : UInt32 := 1

def misused : UInt32 := 2

end PermissionTypes.CommandLine

open PermissionTypes.CommandLine in
def main (arguments : List String) : IO UInt32 := do
  match Arguments.ofList arguments with
  | .error fault =>
      if fault.isAnswer then
        IO.println fault.describe
        return succeeded
      IO.eprintln ("error: " ++ fault.describe ++ "\n\n" ++ Usage.pattern)
      return misused
  | .ok arguments =>
      match ← Session.start Machine.host (← Machine.environment) arguments with
      | .ok () => return succeeded
      | .error failure =>
          IO.eprintln failure.report
          return failed
