import PermissionTypes.CommandLine.SettingTree

/-! The settings of the program, which concern its log.

They are found in the environment by the rules of a configuration library. Written down here are
the rules that `log.filter` and `log.ansi` can meet, for the names of variables and for their
values, and no others. Sessions do not depend on them, since they take any `Readers`. -/

namespace PermissionTypes.CommandLine

structure Settings where
  filter : String
  ansi : Bool
  deriving DecidableEq, Repr

inductive SettingFault where
  | unusableLog
  | unusableFilter
  | unusableAnsi
  deriving DecidableEq, Repr

namespace Settings

def standard : Settings where
  filter := "warn"
  ansi := true

def filterOf : Option SettingTree → Except SettingFault String
  | none => .ok standard.filter
  | some (.value value) => .ok value.describe
  | some _ => .error .unusableFilter

def ansiOf : Option SettingTree → Except SettingFault Bool
  | none => .ok standard.ansi
  | some (.value value) =>
      match value.isOn? with
      | some isOn => .ok isOn
      | none => .error .unusableAnsi
  | some _ => .error .unusableAnsi

/-- The settings of the log by their names, or one after another in a sequence. -/
def ofTree (tree : SettingTree) : Except SettingFault Settings :=
  match tree.below? "log" with
  | none => .ok standard
  | some (.group entries) => do
      let filter ← filterOf (entries.lookup "filter")
      let ansi ← ansiOf (entries.lookup "ansi")
      pure { filter, ansi }
  | some (.sequence elements) => do
      let filter ← filterOf elements[0]?
      let ansi ← ansiOf elements[1]?
      pure { filter, ansi }
  | some _ => .error .unusableLog

def ofEnvironment (environment : List (String × String)) : Except SettingFault Settings :=
  ofTree (.ofEnvironment environment)

end Settings
end PermissionTypes.CommandLine
