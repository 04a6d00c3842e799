import PermissionTypes.Number.Binary64
import PermissionTypes.Number.Digits

/-! Values of settings, as they are written in the environment. -/

namespace PermissionTypes.CommandLine

inductive SettingValue where
  | flag (value : Bool)
  | whole (value : Int)
  | real (value : Number.Binary64)
  | text (value : String)
  deriving DecidableEq, Repr

namespace SettingValue

def isWithinBounds (value : Int) : Bool :=
  Int64.minValue.toInt ≤ value && value ≤ Int64.maxValue.toInt

def ofText (written : String) : SettingValue :=
  let word := String.ofList (written.toList.map Char.toLower)
  if word == "true" then .flag true
  else if word == "false" then .flag false
  else
    match (Number.ofText? written.toList).filter isWithinBounds with
    | some value => .whole value
    | none =>
        match Number.Binary64.ofText? written.toList with
        | some value => .real value
        | none => .text written

def describe : SettingValue → String
  | .flag value => if value then "true" else "false"
  | .whole value => toString value
  | .real value => value.describe
  | .text value => value

/-- The truth value that is meant. Numbers other than zero are true. -/
def isOn? : SettingValue → Option Bool
  | .flag value => some value
  | .whole value => some (value != 0)
  | .real value => some !value.isZero
  | .text value =>
      let word := String.ofList (value.toList.map Char.toLower)
      if word == "on" || word == "yes" then some true
      else if word == "off" || word == "no" then some false
      else none

end SettingValue

end PermissionTypes.CommandLine
