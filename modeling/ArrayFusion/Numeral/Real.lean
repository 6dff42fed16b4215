/-!
# Roundings and remainders of doubles

Whole numbers near a double, and the remainder of a division, written with the operations that
doubles have. The remainder is exact: both numbers are whole multiples of one power of two, and the
remainder of the whole numbers is again a double.
-/

namespace ArrayFusion.Real

/-- The sign bit, set also for negative zero. -/
def isNegative (x : Float) : Bool := x.toBits ≥ 0x8000000000000000

/-- Gives a number without sign the sign of another one. -/
def withSign (x sign : Float) : Float := if isNegative sign then -x else x

/-- Whole part, toward zero. -/
def truncate (x : Float) : Float := if x < 0 then x.ceil else x.floor

/-- Nearest whole number, ties to even. Below `2 ^ 52` adding this power rounds away the
fraction; from there on every double is whole. -/
def nearestEven (x : Float) : Float :=
  let power : Float := 4503599627370496
  if x.abs < power then withSign (x.abs + power - power) x else x

/-- Whole number `m` and exponent `e` with `m * 2 ^ e` the absolute value of a finite double. -/
def decode (x : Float) : Nat × Int :=
  let bits : Nat := x.toBits.toNat % (1 <<< 63)
  let field : Nat := bits >>> 52
  let fraction := bits % (1 <<< 52)
  if field = 0 then (fraction, -1074) else (fraction + (1 <<< 52), (field : Int) - 1075)

/-- Remainder of the division toward zero, with the sign of the dividend. -/
def remainder (x y : Float) : Float :=
  if x.isNaN || y.isNaN || x.isInf || y == 0 then Float.ofBits 0x7ff8000000000000
  else if y.isInf then x
  else
    let (m, e) := decode x
    let (n, f) := decode y
    let unit := min e f
    let rest := (m <<< (e - unit).toNat) % (n <<< (f - unit).toNat)
    withSign (rest.toFloat.scaleB unit) x

end ArrayFusion.Real
