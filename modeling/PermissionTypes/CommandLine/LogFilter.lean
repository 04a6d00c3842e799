import PermissionTypes.Number.Digits
import PermissionTypes.Text.Blank
import PermissionTypes.Text.Split

/-! Log filters. A filter is a list of directives between commas, and each of them sets a level for
everything or for one target.

These are not all filters that the logging library knows. A directive is a level, a target, or a
target with a level. Spans and fields, which stand in brackets, are refused where a directive begins
with them and taken for a part of the target where it does not, and a target that begins with a
character outside ASCII is refused. Sessions do not depend on this choice, since they take any
`Readers`. -/

namespace PermissionTypes.CommandLine

/-! ## Levels -/

inductive LogLevel where
  | off
  | error
  | warn
  | info
  | debug
  | trace
  deriving DecidableEq, Repr

namespace LogLevel

def rank : LogLevel → Nat
  | .off => 0
  | .error => 1
  | .warn => 2
  | .info => 3
  | .debug => 4
  | .trace => 5

def describe : LogLevel → String
  | .off => "off"
  | .error => "error"
  | .warn => "warn"
  | .info => "info"
  | .debug => "debug"
  | .trace => "trace"

def all : List LogLevel := [.off, .error, .warn, .info, .debug, .trace]

def ofText? (text : List Char) : Option LogLevel :=
  match Number.ofText? text with
  | some rank => if text.head? == some '-' then none else all[rank.toNat]?
  | none =>
      let word := String.ofList (text.map Char.toLower)
      all.find? (·.describe == word)

def max (first second : LogLevel) : LogLevel :=
  if first.rank ≤ second.rank then second else first

end LogLevel

/-! ## Directives -/

structure LogDirective where
  target : Option String
  level : LogLevel
  deriving DecidableEq, Repr

namespace LogDirective

def isTargetStart (character : Char) : Bool :=
  character.isAlphanum || character == '_' || character == ':' || character == '-'

/-- A level, a target, or both with an equals sign between them. A target alone, or with nothing
behind the sign, is logged completely. -/
def ofText? (text : List Char) : Option LogDirective :=
  if !text.head?.any isTargetStart then none
  else
    let name := text.takeWhile (· != '=')
    match text.dropWhile (· != '=') with
    | [] =>
        match LogLevel.ofText? name with
        | some level => some { target := none, level }
        | none => some { target := some (String.ofList name), level := .trace }
    | [_] => some { target := some (String.ofList name), level := .trace }
    | _ :: level =>
        (LogLevel.ofText? level).map fun level => { target := some (String.ofList name), level }

end LogDirective

/-! ## Filters -/

structure LogFilter where
  directives : List LogDirective
  deriving DecidableEq, Repr

namespace LogFilter

def ofText? (text : List Char) : Option LogFilter :=
  let written := (Text.split ',' text).filter (!·.isEmpty)
  (written.mapM LogDirective.ofText?).map fun directives => { directives }

def maxLevel (filter : LogFilter) : LogLevel :=
  filter.directives.foldl (fun level directive => level.max directive.level) .off

/-- The text of the filter to use. One in the environment that is not blank counts before the
verbosity of the command line, and that before the configured one. -/
def choose (environment : Option String) (verbosity : Nat) (configured : String) : String :=
  match environment.filter fun text => !Text.isBlank text.toList with
  | some text => text
  | none =>
      match verbosity with
      | 0 => configured
      | 1 => "info"
      | 2 => "debug"
      | _ => "trace"

end LogFilter
end PermissionTypes.CommandLine
