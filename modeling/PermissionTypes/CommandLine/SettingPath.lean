import PermissionTypes.CommandLine.SettingValue
import PermissionTypes.Text.Split

/-! Paths of settings. A path goes down by names with dots between them, and by positions in
brackets behind a name, as in `log.filter` or `log[0]`. -/

namespace PermissionTypes.CommandLine

/-! ## Steps -/

/-- A way down, by a name in a group or by a position in a sequence. Positions below zero count
from the end. -/
inductive SettingStep where
  | name (name : String)
  | position (position : Int)
  deriving DecidableEq, Repr

abbrev SettingPath := List SettingStep

namespace SettingPath

def isNameCharacter (character : Char) : Bool :=
  character.isAlphanum || character == '_' || character == '-'

def isName (text : List Char) : Bool :=
  !text.isEmpty && text.all isNameCharacter

def isGap (character : Char) : Bool :=
  character == ' ' || character == '\t'

def withoutGaps (text : List Char) : List Char :=
  ((text.dropWhile isGap).reverse.dropWhile isGap).reverse

def position? (text : List Char) : Option SettingStep :=
  if text.getLast? == some ']' then
    let number := withoutGaps text.dropLast
    if number.head? == some '+' then none
    else ((Number.ofText? number).filter SettingValue.isWithinBounds).map .position
  else none

def segment? (text : List Char) : Option SettingPath :=
  match Text.split '[' text with
  | [] => none
  | name :: positions =>
      if isName name then
        (positions.mapM position?).map (.name (String.ofList name) :: ·)
      else none

def ofText? (text : List Char) : Option SettingPath :=
  ((Text.split '.' text).mapM segment?).map List.flatten

/-! ## Variables

Variables of the program begin with its name, in any case. What follows is a path in which two
underscores may stand for a dot, as in `ZED_TYPEGEN_LOG__FILTER`. -/

def front : List Char := "zed_typegen_".toList

/-- The small letter of a character. The sign for kelvin is the only character outside ASCII whose
small letter can stand in a name. -/
def lowered (character : Char) : Char :=
  if character = '\u212a' then 'k' else character.toLower

def withDots : List Char → List Char
  | '_' :: '_' :: rest => '.' :: withDots rest
  | character :: rest => character :: withDots rest
  | [] => []

def ofVariable? (name : String) : Option SettingPath :=
  let lower := name.toList.map lowered
  if front.isPrefixOf lower then ofText? (withDots (lower.drop front.length)) else none

end SettingPath
end PermissionTypes.CommandLine
