/-! Faults of the file system, in its own words. -/

namespace PermissionTypes

inductive FileFault where
  | nulCharacter
  | missing
  | notDirectory
  | isDirectory
  | nameTooLong
  | other (description : String)
  deriving DecidableEq, Repr

namespace FileFault

def describe : FileFault → String
  | .nulCharacter => "file name contained an unexpected NUL byte"
  | .missing => "No such file or directory (os error 2)"
  | .notDirectory => "Not a directory (os error 20)"
  | .isDirectory => "Is a directory (os error 21)"
  | .nameTooLong => "File name too long (os error 36)"
  | .other description => description

end FileFault
end PermissionTypes
