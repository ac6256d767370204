import QubitScript.Number.Double

/-!
# Decimals of doubles

The decimal digits that stand for a double: the fewest that read back as the same double, or a
given number of them rounded from its exact value.
-/

namespace QubitScript.Number

/-- The number `digits * 10 ^ exponent`. -/
structure Decimal where
  digits : Nat
  exponent : Int
deriving DecidableEq, Repr

/-- A positive fraction. -/
structure Fraction where
  numerator : Nat
  denominator : Nat
deriving DecidableEq, Repr

/-- `significand * 2 ^ exponent` as a fraction. -/
def Fraction.ofBinary (significand : Nat) (exponent : Int) : Fraction :=
  ⟨significand * 2 ^ exponent.toNat, 2 ^ (-exponent).toNat⟩

/-- The fraction in units of `10 ^ exponent`. -/
def Fraction.inUnits (x : Fraction) (exponent : Int) : Fraction :=
  ⟨x.numerator * 10 ^ (-exponent).toNat, x.denominator * 10 ^ exponent.toNat⟩

/-- The number of decimal digits of an integer; zero has none. -/
def digitCount (n : Nat) : Nat :=
  if n = 0 then 0 else digitCount (n / 10) + 1
termination_by n
decreasing_by omega

/-- The place of the leading digit: the largest `k` with `10 ^ k ≤ x`. -/
def Fraction.leadingPlace (x : Fraction) : Int :=
  if x.denominator ≤ x.numerator then digitCount (x.numerator / x.denominator) - 1
  else -digitCount ((x.denominator - 1) / x.numerator)

/-- The fraction to `count` significant digits, a tie going to the even digit. -/
def Fraction.toDigits (x : Fraction) (count : Nat) : Decimal :=
  let exponent := x.leadingPlace + 1 - count
  let scaled := x.inUnits exponent
  let digits := divideRound scaled.numerator scaled.denominator
  if digits = 10 ^ count then ⟨10 ^ (count - 1), exponent + 1⟩ else ⟨digits, exponent⟩

/-- The fraction to `places` digits after the point, a tie going to the even digit. -/
def Fraction.toPlaces (x : Fraction) (places : Nat) : Decimal :=
  let scaled := x.inUnits (-places)
  ⟨divideRound scaled.numerator scaled.denominator, -places⟩

/-- The reals that round to one double, in units of `2 ^ unit`: those strictly between `low` and
`high`, and these ends too when `closed`. -/
structure Interval where
  low : Nat
  value : Nat
  high : Nat
  unit : Int
  closed : Bool

/-- The interval of `significand * 2 ^ exponent`. Below a power of two the doubles lie twice as
dense, except at the least exponent. -/
def Interval.ofDouble (significand : Nat) (exponent : Int) : Interval :=
  let below := if significand = 2 ^ 52 ∧ -1074 < exponent then 1 else 2
  { low := 4 * significand - below
    value := 4 * significand
    high := 4 * significand + 2
    unit := exponent - 2
    closed := significand % 2 = 0 }

/-- Whether `digits * 10 ^ place` rounds to the double. -/
def Interval.contains (range : Interval) (digits : Nat) (place : Int) : Bool :=
  let compare (end' : Nat) : Nat × Nat :=
    let bound := (Fraction.ofBinary end' range.unit).inUnits place
    (bound.numerator, digits * bound.denominator)
  let (low, above) := compare range.low
  let (high, below) := compare range.high
  if range.closed then low ≤ above && below ≤ high else low < above && below < high

/-- The multiple of `10 ^ place` nearest to the double among those that round to it; of two at the
same distance, the larger. Only the two neighbours of the double need a look. -/
def Interval.atPlace? (range : Interval) (place : Int) : Option Decimal :=
  let scaled := (Fraction.ofBinary range.value range.unit).inUnits place
  let lower := scaled.numerator / scaled.denominator
  let nearLower := 2 * (scaled.numerator % scaled.denominator) < scaled.denominator
  match range.contains lower place, range.contains (lower + 1) place with
  | true, true => some ⟨if nearLower then lower else lower + 1, place⟩
  | true, false => some ⟨lower, place⟩
  | false, true => some ⟨lower + 1, place⟩
  | false, false => none

/-- The fewest digits that read back as the double, and of those the nearest to it. Seventeen
always do. -/
def shortest (significand : Nat) (exponent : Int) : Decimal :=
  let range := Interval.ofDouble significand exponent
  let value := Fraction.ofBinary significand exponent
  let top := value.leadingPlace
  ((List.range 17).findSome? fun (count : Nat) =>
    range.atPlace? (top - count)).getD (value.toDigits 17)

end QubitScript.Number
