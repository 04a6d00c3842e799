import PermissionTypes.Text.Bytes

/-! Lines and columns. Both are counted from one, columns in characters, and a line ends at a
line feed only. -/

namespace PermissionTypes.Text

structure Position where
  line : Nat
  column : Nat
  deriving DecidableEq, Repr

namespace Position

def after (before : List Char) : Position where
  line := before.count '\n' + 1
  column := (before.reverse.takeWhile (· != '\n')).length + 1

/-- The position of a place given in bytes. A place inside a character is that character's, and a
place behind the end is the end. -/
def ofOffset (text : List Char) (offset : Nat) : Position :=
  after (takeBytes offset text)

def describe (position : Position) : String :=
  "line " ++ toString position.line ++ ", column " ++ toString position.column

end Position
end PermissionTypes.Text
