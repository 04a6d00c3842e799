import PermissionTypes.CommandLine.Arguments
import PermissionTypes.CommandLine.Session

/-! What the program says to its user about itself, about wrong arguments and about a session that
has failed. -/

namespace PermissionTypes.CommandLine

namespace Usage

def programName : String := "zed-typegen"

def version : String := programName ++ " 0.1.0"

def pattern : String := "Usage: " ++ programName ++ " [OPTIONS] <FOLDER> <SCHEMA_FILE>"

def help : String :=
  "\n".intercalate [
    "Generate TypeScript permission definitions from a SpiceDB schema",
    "",
    pattern,
    "",
    "Arguments:",
    "  <FOLDER>       Folder containing the schema file",
    "  <SCHEMA_FILE>  Schema file name, relative to the folder",
    "",
    "Options:",
    "  -o, --output <PATH>  Write the definitions to this file instead of stdout",
    "  -v, --verbose...     Enable verbose output. Repeat for more verbosity (-v, -vv, -vvv)",
    "  -h, --help           Print help",
    "  -V, --version        Print version"]

end Usage

/-! ## Wrong arguments -/

namespace ArgumentFault

def describe : ArgumentFault → String
  | .helpRequested => Usage.help
  | .versionRequested => Usage.version
  | .missingPositional => "FOLDER and SCHEMA_FILE are required"
  | .blankPositional => "FOLDER and SCHEMA_FILE must not be empty"
  | .unknownArgument => "unexpected argument"
  | .missingValue => "a value is required for --output"
  | .unexpectedValue => "an option is given a value that it does not take"
  | .repeatedOutput => "--output cannot be used multiple times"

def isAnswer : ArgumentFault → Bool
  | .helpRequested | .versionRequested => true
  | _ => false

end ArgumentFault

/-! ## Failed sessions -/

def SessionFailure.report (failure : SessionFailure) : String :=
  "\n".intercalate (failure.describe :: failure.causes.map ("  caused by: " ++ ·))

end PermissionTypes.CommandLine
