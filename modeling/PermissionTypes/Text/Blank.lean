/-! Blank characters: those with the Unicode property `White_Space`. -/

namespace PermissionTypes.Text

def isBlankCharacter (character : Char) : Bool :=
  let code := character.toNat
  (0x9 ≤ code && code ≤ 0xD) || code == 0x20 || code == 0x85 || code == 0xA0 ||
    code == 0x1680 || (0x2000 ≤ code && code ≤ 0x200A) || code == 0x2028 || code == 0x2029 ||
    code == 0x202F || code == 0x205F || code == 0x3000

/-- Nothing is left of the text once the blanks at both ends are taken away. -/
def isBlank (text : List Char) : Bool :=
  text.all isBlankCharacter

end PermissionTypes.Text
