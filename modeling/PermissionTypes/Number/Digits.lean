/-! Decimal digits. -/

namespace PermissionTypes.Number

def digitValue (digit : Char) : Nat :=
  digit.toNat - '0'.toNat

def ofDigits (digits : List Char) : Nat :=
  digits.foldl (fun value digit => 10 * value + digitValue digit) 0

def splitSign : List Char → Bool × List Char
  | '-' :: rest => (true, rest)
  | '+' :: rest => (false, rest)
  | rest => (false, rest)

def withSign (negative : Bool) (magnitude : Nat) : Int :=
  if negative then -magnitude else magnitude

def ofText? (text : List Char) : Option Int :=
  match splitSign text with
  | (_, []) => none
  | (negative, digits) =>
      if digits.all Char.isDigit then some (withSign negative (ofDigits digits)) else none

end PermissionTypes.Number
