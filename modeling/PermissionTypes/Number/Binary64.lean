import PermissionTypes.Number.Digits

/-! Binary floating point numbers of 64 bits. All finite ones are multiples of the smallest positive
one, 2 to the power of -1074, and are kept as the number of times that it goes into them. -/

namespace PermissionTypes.Number

inductive Binary64 where
  | notANumber
  | infinite (negative : Bool)
  | finite (negative : Bool) (units : Nat)
  deriving DecidableEq, Repr

namespace Binary64

def unitsOfOne : Nat := Nat.pow 2 1074

def limit : Nat := Nat.pow 2 1024 * unitsOfOne

/-- The distance from a magnitude to the next one above, in units. There are 53 binary digits. -/
def granule (units : Nat) : Nat :=
  Nat.pow 2 (units.log2 - 52)

/-! ## Rounding -/

def divideToEven (numerator denominator : Nat) : Nat :=
  let quotient := numerator / denominator
  let twice := 2 * (numerator % denominator)
  if twice < denominator then quotient
  else if twice = denominator then quotient + quotient % 2
  else quotient + 1

def ofRatio (negative : Bool) (numerator denominator : Nat) : Binary64 :=
  let scaled := numerator * unitsOfOne
  let step := granule (scaled / denominator)
  let units := divideToEven scaled (denominator * step) * step
  if units < limit then .finite negative units else .infinite negative

/-! Beyond a few hundred digits before or after the point there is nothing but infinity and zero. -/

def furthestDigit : Int := 400

def ofDecimal (negative : Bool) (digits : List Char) (exponent : Int) : Binary64 :=
  let significant := digits.dropWhile (· == '0')
  let reach := significant.length + exponent
  if significant.isEmpty || reach < -furthestDigit then .finite negative 0
  else if furthestDigit < reach then .infinite negative
  else
    ofRatio negative (ofDigits significant * Nat.pow 10 exponent.toNat)
      (Nat.pow 10 (-exponent).toNat)

/-! ## Reading -/

def exponentOf? : List Char → Option Int
  | [] => some 0
  | mark :: rest => if mark.toLower = 'e' then Number.ofText? rest else none

def ofUnsigned? (negative : Bool) (text : List Char) : Option Binary64 :=
  let whole := text.takeWhile Char.isDigit
  let behindWhole := text.dropWhile Char.isDigit
  let pointed := behindWhole.head? == some '.'
  let fraction := if pointed then behindWhole.tail.takeWhile Char.isDigit else []
  let behind := if pointed then behindWhole.tail.dropWhile Char.isDigit else behindWhole
  if whole.isEmpty && fraction.isEmpty then none
  else
    match exponentOf? behind with
    | some exponent => some (ofDecimal negative (whole ++ fraction) (exponent - fraction.length))
    | none => none

def ofText? (text : List Char) : Option Binary64 :=
  let (negative, magnitude) := splitSign text
  let word := String.ofList (magnitude.map Char.toLower)
  if word == "nan" then some .notANumber
  else if word == "inf" || word == "infinity" then some (.infinite negative)
  else ofUnsigned? negative magnitude

/-! ## Writing

A number is written with the fewest digits that are read as the same number, and of those with the
ones nearest to it. There is no power of ten: zeros fill the places up to the point. -/

/-- Whether digits with a power of ten are read as a positive number of units. Everything nearer to
it than to its neighbours is, and the middle to a neighbour if the last binary digit is even. -/
def isReadAs (units : Nat) (digits : Nat) (exponent : Int) : Bool :=
  let above := granule units
  let below := if units = Nat.pow 2 units.log2 ∧ 1 < above then above / 2 else above
  let written := 4 * digits * Nat.pow 10 exponent.toNat * unitsOfOne
  let scale := Nat.pow 10 (-exponent).toNat
  let low := (4 * units - 2 * below) * scale
  let high := (4 * units + 2 * above) * scale
  if units / above % 2 = 0 then low ≤ written && written ≤ high
  else low < written && written < high

def magnitudeFrom (units : Nat) : Nat → Int → Int
  | 0, exponent => exponent
  | steps + 1, exponent =>
      let lower := exponent - 1
      if units * Nat.pow 10 (-lower).toNat < Nat.pow 10 lower.toNat * unitsOfOne then
        magnitudeFrom units steps lower
      else exponent

def magnitude (units : Nat) : Int :=
  magnitudeFrom units 640 310

def withDigits? (units : Nat) (count : Nat) : Option (Nat × Int) :=
  let exponent := magnitude units - count
  let numerator := units * Nat.pow 10 (-exponent).toNat
  let denominator := unitsOfOne * Nat.pow 10 exponent.toNat
  let below := numerator / denominator
  let candidates :=
    if 2 * (numerator % denominator) < denominator then [below, below + 1]
    else [below + 1, below]
  (candidates.find? fun digits => isReadAs units digits exponent).map (·, exponent)

/-- The fewest digits. Seventeen are always enough. A ten can only be a one with the next higher
power. -/
def shortest (units : Nat) : Nat × Int :=
  match (List.range 17).findSome? fun fewer => withDigits? units (fewer + 1) with
  | some (10, exponent) => (1, exponent + 1)
  | some decimal => decimal
  | none => (0, 0)

def positional (digits : Nat) (exponent : Int) : List Char :=
  let written := Nat.toDigits 10 digits
  if 0 ≤ exponent then written ++ List.replicate exponent.toNat '0'
  else
    let places := (-exponent).toNat
    let padded := List.replicate (places + 1 - written.length) '0' ++ written
    padded.take (padded.length - places) ++ '.' :: padded.drop (padded.length - places)

def describe : Binary64 → String
  | .notANumber => "NaN"
  | .infinite negative => if negative then "-inf" else "inf"
  | .finite negative units =>
      let (digits, exponent) := shortest units
      let sign := if negative then ['-'] else []
      String.ofList (sign ++ if units = 0 then ['0'] else positional digits exponent)

def isZero : Binary64 → Bool
  | .finite _ units => units == 0
  | _ => false

end Binary64
end PermissionTypes.Number
