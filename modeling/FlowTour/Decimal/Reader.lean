/-!
Reading floating-point numbers from decimal text: an optional sign, then digits with an optional
point and at least one digit, then an optional exponent; or a name of infinity or of not-a-number in
any case. Nothing may surround the number. The value is the nearest double.
-/

namespace FlowTour.Decimal

def infinity : Float := Float.ofBits 0x7ff0000000000000

def notANumber : Float := Float.ofBits 0x7ff8000000000000

def splitSign : List Char → Bool × List Char
  | '-' :: rest => (true, rest)
  | '+' :: rest => (false, rest)
  | text => (false, text)

def digitsValue (digits : List Char) : Nat :=
  digits.foldl (fun value digit => 10 * value + (digit.toNat - '0'.toNat)) 0

def readExponent? : List Char → Option Int
  | [] => some 0
  | mark :: rest =>
      let (negative, digits) := splitSign rest
      if (mark = 'e' ∨ mark = 'E') ∧ digits ≠ [] ∧ digits.all Char.isDigit then
        let size : Int := digitsValue digits
        some (if negative then -size else size)
      else none

/-- Digits times a power of ten. Far outside the range of doubles the answer does not depend on the
digits, and the power need not be computed. -/
def scaled (digits : Nat) (exponent : Int) : Float :=
  if digits = 0 then 0.0
  else
    let magnitude : Int := (Nat.toDigits 10 digits).length + exponent
    if magnitude < -400 then 0.0
    else if 400 < magnitude then infinity
    else if exponent < 0 then Float.ofScientific digits true exponent.natAbs
    else Float.ofScientific digits false exponent.natAbs

def readUnsigned? (text : List Char) : Option Float :=
  let name := text.map Char.toLower
  if name = "inf".toList ∨ name = "infinity".toList then some infinity
  else if name = "nan".toList then some notANumber
  else
    let whole := text.takeWhile Char.isDigit
    let afterWhole := text.dropWhile Char.isDigit
    let afterPoint := match afterWhole with
      | '.' :: rest => rest
      | rest => rest
    let places := if afterWhole.head? = some '.' then afterPoint.takeWhile Char.isDigit else []
    if whole = [] ∧ places = [] then none
    else
      (readExponent? (afterPoint.drop places.length)).map fun exponent =>
        scaled (digitsValue (whole ++ places)) (exponent - places.length)

def readDouble? (text : String) : Option Float :=
  let (negative, unsigned) := splitSign text.toList
  (readUnsigned? unsigned).map fun value => if negative then -value else value

end FlowTour.Decimal
