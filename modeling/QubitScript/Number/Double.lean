import QubitScript.Number.Power

/-!
# Exact values of doubles

A finite double is an integer times a power of two. An operation that is to be rounded only once
computes its exact result in integers and then takes the nearest double, a tie going to the even
significand.
-/

namespace QubitScript.Number

/-- The number `significand * 2 ^ exponent`. -/
structure Dyadic where
  significand : Int
  exponent : Int
deriving DecidableEq, Repr

/-- Whether the sign bit is set, which tells `-0` from `0`. -/
def signBit (x : Float) : Bool := x.toBits >>> 63 == 1

/-- The exact value of a double, or nothing for an infinity and for NaN. -/
def Dyadic.ofFloat? (x : Float) : Option Dyadic :=
  let bits := x.toBits.toNat
  let fraction : Nat := bits % 2 ^ 52
  let biased : Nat := bits / 2 ^ 52 % 2 ^ 11
  let signed (n : Nat) : Int := if signBit x then -n else n
  if biased = 2047 then none
  else if biased = 0 then some ⟨signed fraction, -1074⟩
  else some ⟨signed (2 ^ 52 + fraction), biased - 1075⟩

/-- `numerator / denominator` to the nearest integer, a tie going to the even one. -/
def divideRound (numerator denominator : Nat) : Nat :=
  let quotient := numerator / denominator
  let twice := 2 * (numerator % denominator)
  if twice < denominator then quotient
  else if denominator < twice then quotient + 1
  else quotient + quotient % 2

/-- The double nearest to `significand * 2 ^ exponent`. The spacing of doubles around the number is
`2 ^ spacing`. A significand that rounds up to `2 ^ 53` carries into the exponent field by itself,
and one at the largest exponent carries to infinity. -/
def nearest (negative : Bool) (significand : Nat) (exponent : Int) : Float :=
  let spacing := max (exponent + Nat.log2 significand - 52) (-1074)
  let rounded :=
    if spacing ≤ exponent then significand <<< (exponent - spacing).toNat
    else divideRound significand (2 ^ (spacing - exponent).toNat)
  let magnitude := if significand = 0 then 0 else (spacing + 1074).toNat * 2 ^ 52 + rounded
  let sign := if negative then 2 ^ 63 else 0
  .ofBits (.ofNat (sign + min magnitude (2047 * 2 ^ 52)))

def Dyadic.add (x y : Dyadic) : Dyadic :=
  let exponent := min x.exponent y.exponent
  let scaled (z : Dyadic) : Int := z.significand * 2 ^ (z.exponent - exponent).toNat
  ⟨scaled x + scaled y, exponent⟩

def Dyadic.mul (x y : Dyadic) : Dyadic :=
  ⟨x.significand * y.significand, x.exponent + y.exponent⟩

/-- `x * y + z`, rounded once. An exact zero is negative only when both terms are. -/
def mulAdd (x y z : Float) : Float :=
  match Dyadic.ofFloat? x, Dyadic.ofFloat? y, Dyadic.ofFloat? z with
  | some a, some b, some c =>
    let sum := (a.mul b).add c
    let negative :=
      if sum.significand = 0 then (signBit x != signBit y) && signBit z else sum.significand < 0
    nearest negative sum.significand.natAbs sum.exponent
  | some _, some _, none => z
  | _, _, _ => x * y + z

/-- The largest integer whose square is at most `n`. -/
def floorSqrt (n : Nat) : Nat :=
  if n = 0 then 0
  else
    let root := 2 * floorSqrt (n / 4)
    if (root + 1) * (root + 1) ≤ n then root + 1 else root
termination_by n
decreasing_by omega

/-- `√(x² + y²)`, rounded once: sixty more bits of the root than its integer part and one bit that
says whether anything is left decide the rounding. An infinite leg wins over NaN. -/
def hypot (x y : Float) : Float :=
  match Dyadic.ofFloat? x, Dyadic.ofFloat? y with
  | some a, some b =>
    let sum := (a.mul a).add (b.mul b)
    let square := sum.significand.natAbs <<< 120
    let root := floorSqrt square
    let remains := if root * root = square then 0 else 1
    nearest false (2 * root + remains) (sum.exponent / 2 - 61)
  | _, _ => if x.isInf || y.isInf then 1.0 / 0.0 else x + y

/-- The mean of two doubles, without overflow on the way. -/
def midpoint (x y : Float) : Float :=
  let half := nearest false (2 ^ 53 - 1) 970
  if x.abs ≤ half && y.abs ≤ half then (x + y) / 2 else x / 2 + y / 2

/-- The magnitude of `x` with the sign of `y`. -/
def copySign (x y : Float) : Float := if signBit y then -x.abs else x.abs

end QubitScript.Number
