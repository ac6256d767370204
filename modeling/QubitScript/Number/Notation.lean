import QubitScript.Number.Decimal
import QubitScript.Text.Digit

/-!
# Notation of numbers

How doubles are written and read. Values are written with the fewest digits that read back, always
positionally. Amounts whose last digits carry no meaning are written with a given number of
significant digits or of places.
-/

namespace QubitScript.Number

open QubitScript.Text

def zeros (count : Nat) : String := String.ofList (List.replicate count '0')

/-- Writes `digits * 10 ^ exponent` without an exponent, with the places that a negative exponent
counts. -/
def Decimal.positional (x : Decimal) : String :=
  let digits := toString x.digits
  let places := (-x.exponent).toNat
  if places = 0 then digits ++ (if x.digits = 0 then "" else zeros x.exponent.toNat)
  else
    let padded := (zeros (places + 1 - digits.length) ++ digits).toList
    let whole := padded.length - places
    String.ofList (padded.take whole) ++ "." ++ String.ofList (padded.drop whole)

/-- Drops the zeros at the end of the digits. -/
def Decimal.reduce (x : Decimal) : Decimal :=
  if _ends : x.digits ≠ 0 ∧ x.digits % 10 = 0 then
    Decimal.reduce ⟨x.digits / 10, x.exponent + 1⟩
  else x
termination_by x.digits
decreasing_by omega

/-- Writes the digits with one before the point, then the exponent of ten. -/
def Decimal.scientific (x : Decimal) : String :=
  let digits := (toString x.digits).toList
  let exponent := x.exponent + (digits.length - 1 : Nat)
  let fraction := if digits.length ≤ 1 then "" else "." ++ String.ofList (digits.drop 1)
  String.ofList (digits.take 1) ++ fraction ++ "e" ++ toString exponent

/-- Writes the sign, zero, infinity and NaN, and leaves the magnitude of any other double to
`body`. -/
def writeWith (body : (significand : Nat) → (exponent : Int) → String) (x : Float) : String :=
  let sign := if signBit x then "-" else ""
  match Dyadic.ofFloat? x with
  | none => if x.isNaN then "NaN" else sign ++ "inf"
  | some value =>
    if value.significand = 0 then sign ++ "0"
    else sign ++ body value.significand.natAbs value.exponent

/-- A double as values are written: the fewest digits that read back, positionally. -/
def write : Float → String :=
  writeWith fun significand exponent => (shortest significand exponent).reduce.positional

/-- A double with `count` significant digits of its exact value. -/
def writeDigits (count : Nat) : Float → String :=
  writeWith fun significand exponent =>
    ((Fraction.ofBinary significand exponent).toDigits count).scientific

/-- A double with `places` digits after the point. A number that rounds to zero loses its sign. -/
def writePlaces (places : Nat) (x : Float) : String :=
  match Dyadic.ofFloat? x with
  | none => write x
  | some value =>
    let rounded := (Fraction.ofBinary value.significand.natAbs value.exponent).toPlaces places
    (if value.significand < 0 ∧ rounded.digits ≠ 0 then "-" else "") ++ rounded.positional

/-! ## Reading -/

/-- The double nearest to `whole.fraction * 10 ^ exponent`. -/
def realOfDigits (whole fraction : List Char) (exponent : Int) : Float :=
  let significand := natOfDigits (whole ++ fraction)
  let exponent := exponent - fraction.length
  -- Beyond these bounds the nearest double is zero or infinite whatever the exponent is.
  let digits : Int := (whole ++ fraction).length
  if significand = 0 ∨ exponent + digits < -400 then 0.0
  else if 400 < exponent then 1.0 / 0.0
  else .ofScientific significand (exponent < 0) exponent.natAbs

/-- Splits a sign off the front; its absence means plus. -/
def splitSign : List Char → Bool × List Char
  | '-' :: rest => (true, rest)
  | '+' :: rest => (false, rest)
  | text => (false, text)

/-- Reads an exponent part, `e` with a signed integer; its absence means zero. -/
def readExponent? : List Char → Option Int
  | [] => some 0
  | e :: rest =>
    if e = 'e' ∨ e = 'E' then
      let (negative, digits) := splitSign rest
      if digits ≠ [] ∧ digits.all Char.isDigit then
        some (if negative then -natOfDigits digits else natOfDigits digits)
      else none
    else none

/-- Reads an unsigned decimal number, with a point and an exponent when it has them. -/
def readUnsigned? (text : List Char) : Option Float :=
  let whole := text.takeWhile Char.isDigit
  let (fraction, tail) := match text.dropWhile Char.isDigit with
    | '.' :: rest => (rest.takeWhile Char.isDigit, rest.dropWhile Char.isDigit)
    | rest => ([], rest)
  if whole ++ fraction = [] then none
  else (readExponent? tail).map fun exponent => realOfDigits whole fraction exponent

/-- Reads a double: a decimal number, `inf` or `NaN`, with or without a sign. -/
def read? (text : String) : Option Float :=
  let (negative, body) := splitSign text.toList
  let magnitude := match (String.ofList body).toLower with
    | "inf" | "infinity" => some (1.0 / 0.0)
    | "nan" => some (0.0 / 0.0)
    | _ => readUnsigned? body
  magnitude.map fun x => if negative then -x else x

end QubitScript.Number
