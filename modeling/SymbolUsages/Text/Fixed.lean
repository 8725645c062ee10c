/-!
# Numbers with one decimal place

A binary number is the exact fraction `±m · 2^q`. It is written with one place after
the point, rounded to the nearest tenth; a fraction that lies halfway between two tenths
goes to the even one. Because the exact value is rounded, 0.25 gives 0.2 and 0.05, which
is stored slightly above, gives 0.1. Zero has a sign like every other number, and the
doubles that are no numbers have names.
-/

namespace SymbolUsages.Text

/-- A finite binary number: its sign and the fraction that is its magnitude. -/
structure Binary where
  negative : Bool
  numerator : Nat
  denominator : Nat
deriving DecidableEq, Repr

namespace Binary

/-- The fraction `significand · 2^(exponent - 1075)`. -/
def ofScaled (negative : Bool) (significand exponent : Nat) : Binary :=
  if 1075 ≤ exponent then
    { negative, numerator := significand <<< (exponent - 1075), denominator := 1 }
  else { negative, numerator := significand, denominator := 1 <<< (1075 - exponent) }

/-- The magnitude in tenths, rounded to the nearest, a half to the even one. -/
def tenths (b : Binary) : Nat :=
  let n := b.numerator * 10
  let low := n / b.denominator
  let twice := 2 * (n % b.denominator)
  if twice < b.denominator then low
  else if b.denominator < twice then low + 1
  else low + low % 2

/-- The number with one place after the point. -/
def toFixed (b : Binary) : String :=
  let t := b.tenths
  (if b.negative then "-" else "") ++ toString (t / 10) ++ "." ++ toString (t % 10)

end Binary

/-- What the bits of a double mean. -/
inductive Double where
  | finite (value : Binary)
  | infinite (negative : Bool)
  | notANumber
deriving DecidableEq, Repr

namespace Double

/-- Read the bits of a double. Subnormal numbers have the exponent of the smallest normal
ones and no implicit bit; the largest exponent is not that of a number. -/
def ofBits (bits : UInt64) : Double :=
  let negative : Bool := bits >>> 63 = 1
  let exponent := ((bits >>> 52) &&& 0x7FF).toNat
  let fraction := (bits &&& 0xFFFFFFFFFFFFF).toNat
  if exponent = 0x7FF then if fraction = 0 then infinite negative else notANumber
  else if exponent = 0 then finite (.ofScaled negative fraction 1)
  else finite (.ofScaled negative (fraction + 0x10000000000000) exponent)

/-- A double with one place after the point. -/
def toFixed : Double → String
  | finite value => value.toFixed
  | infinite negative => if negative then "-inf" else "inf"
  | notANumber => "nan"

end Double

/-- A number of seconds with one place after the point. -/
def seconds (x : Float) : String :=
  (Double.ofBits x.toBits).toFixed ++ "s"

end SymbolUsages.Text
