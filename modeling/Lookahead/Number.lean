/-!
# Numbers

The binary floating point numbers of 64 bits, how they are read from a text and how they are written.
-/

set_option autoImplicit false

namespace Lookahead

/-!
## Binary floating point numbers of 64 bits

The values are those of the IEEE 754 format binary64, held as a sign and a magnitude. A magnitude
is a natural number of units of `2 ^ -1074`, the smallest positive value, and is written
`mantissa * 2 ^ exponent` with a mantissa below `2 ^ 53`. So rounding is division of natural
numbers.
-/

/-- A finite magnitude, `mantissa * 2 ^ exponent` units of `2 ^ -1074`. -/
structure Magnitude where
  mantissa : Nat
  exponent : Nat
  deriving DecidableEq

namespace Magnitude

/-- Below `2 ^ 52` the mantissa has no exponent, so that every magnitude has one form. -/
def IsNormal (magnitude : Magnitude) : Prop :=
  magnitude.mantissa < Nat.pow 2 53 ∧ magnitude.exponent ≤ 2045 ∧
    (Nat.pow 2 52 ≤ magnitude.mantissa ∨ magnitude.exponent = 0)

instance (magnitude : Magnitude) : Decidable magnitude.IsNormal :=
  inferInstanceAs (Decidable (_ ∧ _))

def units (magnitude : Magnitude) : Nat :=
  magnitude.mantissa * Nat.pow 2 magnitude.exponent

/-- A quotient rounded to the nearest number, to the even one if two are as near. -/
def divideToEven (top bottom : Nat) : Nat :=
  let low := top / bottom
  let twice := 2 * (top % bottom)
  if twice < bottom then low
  else if bottom < twice then low + 1
  else low + low % 2

/-- A mantissa that rounding has carried to `2 ^ 53` is brought back below it. -/
def carry (mantissa exponent : Nat) : Option Magnitude :=
  let rounded : Magnitude :=
    if mantissa = Nat.pow 2 53 then ⟨Nat.pow 2 52, exponent + 1⟩ else ⟨mantissa, exponent⟩
  if rounded.exponent ≤ 2045 then some rounded else none

def round (top bottom : Nat) : Option Magnitude :=
  let scaled := top * Nat.pow 2 1074
  let exponent := (scaled / bottom).log2 - 52
  carry (divideToEven scaled (bottom * Nat.pow 2 exponent)) exponent

/-- Exponents that leave no doubt about the answer are not raised to. -/
def ofDecimal (digits : Nat) (exponent : Int) : Option Magnitude :=
  if digits = 0 then some ⟨0, 0⟩
  else if 400 < exponent then none
  else if (digits.log2 : Int) + 1081 < 3 * -exponent then some ⟨0, 0⟩
  else round (digits * Nat.pow 10 exponent.toNat) (Nat.pow 10 (-exponent).toNat)

end Magnitude

inductive Binary64 where
  | finite (negative : Bool) (magnitude : Magnitude)
  | infinite (negative : Bool)
  | nan
  deriving DecidableEq

def Binary64.ofMagnitude (negative : Bool) : Option Magnitude → Binary64
  | some magnitude => .finite negative magnitude
  | none => .infinite negative

end Lookahead

namespace Lookahead.Number

/-!
## Numbers read from text

A number is written with an optional sign, ASCII digits with at most one point among or around
them, and an optional exponent of ten. The words `inf`, `infinity` and `nan` in any case are numbers
too. Nothing else is: no blanks, no other digits, no separators.
-/

def digitsValue (digits : List Char) : Nat :=
  digits.foldl (fun value c => 10 * value + (c.toNat - '0'.toNat)) 0

/-- It stops growing past five digits, when it is beyond all numbers of the format. -/
def exponentValue (digits : List Char) : Nat :=
  digits.foldl
    (fun value c => if value < 65536 then 10 * value + (c.toNat - '0'.toNat) else value) 0

def splitSign : List Char → Bool × List Char
  | '-' :: text => (true, text)
  | '+' :: text => (false, text)
  | text => (false, text)

def splitDigits (text : List Char) : List Char × List Char :=
  (text.takeWhile Char.isDigit, text.dropWhile Char.isDigit)

def splitFraction : List Char → List Char × List Char
  | '.' :: text => splitDigits text
  | text => ([], text)

def readExponent? (text : List Char) : Option Int :=
  let signed := splitSign text
  let split := splitDigits signed.2
  if split.1.isEmpty || !split.2.isEmpty then none
  else if signed.1 then some (-(exponentValue split.1 : Int))
  else some (exponentValue split.1)

def readTail? : List Char → Option Int
  | [] => some 0
  | mark :: text => if mark = 'e' ∨ mark = 'E' then readExponent? text else none

/-- The digits of a numeral as one number, and the power of ten to multiply it by. -/
def readDecimal? (text : List Char) : Option (Nat × Int) :=
  let whole := splitDigits text
  let fraction := splitFraction whole.2
  if whole.1.isEmpty && fraction.1.isEmpty then none
  else (readTail? fraction.2).map fun exponent =>
    (digitsValue (whole.1 ++ fraction.1), exponent - fraction.1.length)

def readWord? (negative : Bool) (text : List Char) : Option Binary64 :=
  let word := text.map Char.toLower
  if word = ['i', 'n', 'f'] ∨ word = ['i', 'n', 'f', 'i', 'n', 'i', 't', 'y'] then
    some (.infinite negative)
  else if word = ['n', 'a', 'n'] then some .nan
  else none

/-- A decimal is rounded to the nearest value, and becomes infinite if it is too large. -/
def read? (text : String) : Option Binary64 :=
  let signed := splitSign text.toList
  match readDecimal? signed.2 with
  | some (digits, exponent) =>
      some (.ofMagnitude signed.1 (Magnitude.ofDecimal digits exponent))
  | none => readWord? signed.1 signed.2

/-!
## Numbers as text

A finite value is written with the fewest decimal digits that are read back as that value. Of two
such decimals the nearer one is taken, of two equally near ones the larger. The digits stand in
place, with no exponent however many zeros that takes, and a whole number has no point.
-/

def fractionOf (magnitude : Magnitude) : Nat × Nat :=
  if 1074 ≤ magnitude.exponent then
    (magnitude.mantissa * Nat.pow 2 (magnitude.exponent - 1074), 1)
  else
    (magnitude.mantissa, Nat.pow 2 (1074 - magnitude.exponent))

def digitCount (n : Nat) : Nat :=
  (Nat.toDigits 10 n).length

/-- The fraction is below this power of ten and not below the one before. All magnitudes are above
`10 ^ -330`. -/
def leadingPlace (top bottom : Nat) : Int :=
  if bottom ≤ top then (digitCount (top / bottom) : Int)
  else (digitCount (top * Nat.pow 10 330 / bottom) : Int) - 330

/-- The two multiples of `10 ^ place` next to a fraction, the nearer one first, the larger one first
if they are as near. -/
def neighbours (top bottom : Nat) (place : Int) : List Nat :=
  let dividend := top * Nat.pow 10 (-place).toNat
  let divisor := bottom * Nat.pow 10 place.toNat
  let low := dividend / divisor
  if 2 * (dividend % divisor) < divisor then [low, low + 1] else [low + 1, low]

/-- The first multiple of `10 ^ place` next to a magnitude that is read back as the magnitude. -/
def atPlace? (magnitude : Magnitude) (top bottom : Nat) (place : Int) : Option (Nat × Int) :=
  ((neighbours top bottom place).find? fun digits =>
    Magnitude.ofDecimal digits place = some magnitude).map fun digits => (digits, place)

/-- The first decimal with one to seventeen digits that is read back as the magnitude. -/
def withFewest? (magnitude : Magnitude) : Option (Nat × Int) :=
  let fraction := fractionOf magnitude
  let leading := leadingPlace fraction.1 fraction.2
  (List.range' 1 17).findSome? fun (count : Nat) =>
    atPlace? magnitude fraction.1 fraction.2 (leading - count)

def allDigits (magnitude : Magnitude) : Nat × Int :=
  (magnitude.units * Nat.pow 5 1074, -1074)

def shortest (magnitude : Magnitude) : Nat × Int :=
  (withFewest? magnitude).getD (allDigits magnitude)

def dropZeros (digits : List Char) : List Char :=
  (digits.reverse.dropWhile (· = '0')).reverse

def decimalText (digits : Nat) (exponent : Int) : List Char :=
  let written := Nat.toDigits 10 digits
  let places := (-exponent).toNat
  if places = 0 then written ++ List.replicate exponent.toNat '0'
  else
    let padded := written.leftpad (places + 1) '0'
    let whole := padded.take (padded.length - places)
    let fraction := dropZeros (padded.drop (padded.length - places))
    if fraction.isEmpty then whole else whole ++ '.' :: fraction

def magnitudeText (magnitude : Magnitude) : List Char :=
  if magnitude.mantissa = 0 then ['0']
  else
    let decimal := shortest magnitude
    decimalText decimal.1 decimal.2

def signText (negative : Bool) : List Char :=
  if negative then ['-'] else []

def text : Binary64 → String
  | .finite negative magnitude => String.ofList (signText negative ++ magnitudeText magnitude)
  | .infinite negative => String.ofList (signText negative ++ ['i', 'n', 'f'])
  | .nan => "NaN"

end Lookahead.Number
