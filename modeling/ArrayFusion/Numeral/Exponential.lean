import ArrayFusion.Numeral.Real

/-!
# Exponential and logarithm near zero

`exp x - 1` and `log (1 + x)` without cancellation near zero, to less than one unit in the last
place. Both split off multiples of `log 2`, for which powers of two are exact, and approximate the
small rest by a polynomial. What a rounded step loses is kept and added in the end. The limits
between the cases are those of the upper half of the bits.
-/

namespace ArrayFusion.Real

/-- Upper half of the bits without the sign. It grows with the absolute value. -/
def upperBits (x : Float) : Nat := (x.toBits.toNat >>> 32) % (1 <<< 31)

/-- `log 2` up to its 33rd binary digit. Small multiples are exact. -/
def logTwo : Float := 6.93147180369123816490e-01

/-- What `logTwo` lacks of `log 2`. -/
def logTwoRest : Float := 1.90821492927058770002e-10

/-- The number `count * log 2 + rest + lost`. -/
structure Reduced where
  count : Int
  rest : Float
  /-- What the rounding of the rest lost. -/
  lost : Float

/-- The nearest multiple of `log 2`, and what is left of a number. -/
def reduce (x : Float) : Reduced :=
  let split (count : Int) (high low : Float) : Reduced :=
    let rest := high - low
    ⟨count, rest, (high - rest) - low⟩
  if upperBits x ≤ 0x3fd62e42 then ⟨0, x, 0⟩
  else if upperBits x < 0x3ff0a2b2 then
    if isNegative x then split (-1) (x + logTwo) (-logTwoRest) else split 1 (x - logTwo) logTwoRest
  else
    let half : Float := if isNegative x then -0.5 else 0.5
    let count := (1.44269504088896338700e+00 * x + half).toInt64.toInt
    let n := Float.ofInt count
    split count (x - n * logTwo) (n * logTwoRest)

/-- `exp x - 1`, for `count` multiples of `log 2` and a rest of which the exponential less one is
`rest - e`. -/
def scaledExp (count : Int) (rest e : Float) : Float :=
  if count = -1 then 0.5 * (rest - e) - 0.5
  else if count = 1 then
    if rest < -0.25 then -2 * (e - (rest + 0.5)) else 1 + 2 * (rest - e)
  else if count ≤ -2 ∨ 56 < count then (1 - (e - rest)).scaleB count - 1
  else
    let inverse := (1 : Float).scaleB (-count)
    if count < 20 then ((1 - inverse) - (e - rest)).scaleB count
    else ((rest - (e + inverse)) + 1).scaleB count

/-- `exp x - 1`. -/
def expMinusOne (x : Float) : Float :=
  if x.isNaN || upperBits x < 0x3c900000 then x
  else if isNegative x && upperBits x ≥ 0x4043687a then -1
  else if x > 7.09782712893383973096e+02 then 1 / 0
  else
    let ⟨count, rest, lost⟩ := reduce x
    let half := 0.5 * rest
    let s := rest * half
    let s2 := s * s
    let s4 := s2 * s2
    let p := (1 + s * -3.33333333333331316428e-02)
      + s2 * (1.58730158725481460165e-03 + s * -7.93650757867487942473e-05)
      + s4 * (4.00821782732936239552e-06 + s * -2.01099218183624371326e-07)
    let t := 3 - p * half
    let e := s * ((p - t) / (6 - rest * t))
    if count = 0 then rest - (rest * e - s)
    else scaledExp count rest ((rest * (e - lost) - lost) - s)

/-- The number `2 ^ count * (1 + rest)`, with `lost` to be added to its logarithm. -/
structure Factored where
  count : Int
  rest : Float
  lost : Float
  /-- The rest is below `2 ^ -20`. -/
  tiny : Bool

/-- The number `1 + x` as a power of two times a number between the roots of one half and two. -/
def factor (x : Float) : Factored :=
  let isNear :=
    if isNegative x then upperBits x ≤ 0x3fd2bec3 else decide (upperBits x < 0x3fda827a)
  if isNear then ⟨0, x, 0, false⟩
  else
    let isHuge := upperBits x ≥ 0x43400000
    let u := if isHuge then x else 1 + x
    let upper := upperBits u
    let count : Int := ((upper >>> 20 : Nat) : Int) - 1023
    let lost := if isHuge then 0 else (if count > 0 then 1 - (u - x) else x - (u - 1)) / u
    let fraction := upper % (1 <<< 20)
    let lower := u.toBits.toNat % (1 <<< 32)
    let withExponent (exponent : Nat) : Float :=
      Float.ofBits (UInt64.ofNat ((((exponent <<< 20) + fraction) <<< 32) + lower))
    if fraction < 0x6a09e then ⟨count, withExponent 0x3ff - 1, lost, fraction = 0⟩
    else ⟨count + 1, withExponent 0x3fe - 1, lost, ((1 <<< 20) - fraction) / 4 = 0⟩

/-- `log (1 + x)`. -/
def logOnePlus (x : Float) : Float :=
  if x.isNaN || upperBits x < 0x3c900000 then x
  else if x == -1 then -1 / 0
  else if x < -1 then 0 / 0
  else if x.isInf then x
  else if upperBits x < 0x3e200000 then x - x * x * 0.5
  else
    let ⟨count, f, lost, tiny⟩ := factor x
    let n := Float.ofInt count
    let square := 0.5 * f * f
    if tiny then
      if f == 0 then if count = 0 then 0 else n * logTwo + (lost + n * logTwoRest)
      else
        let r := square * (1 - 0.66666666666666666 * f)
        if count = 0 then f - r else n * logTwo - ((r - (n * logTwoRest + lost)) - f)
    else
      let s := f / (2 + f)
      let z := s * s
      let z2 := z * z
      let z4 := z2 * z2
      let z6 := z4 * z2
      let r := z * 6.666666666666735130e-01
        + z2 * (3.999999999940941908e-01 + z * 2.857142874366239149e-01)
        + z4 * (2.222219843214978396e-01 + z * 1.818357216161805012e-01)
        + z6 * (1.531383769920937332e-01 + z * 1.479819860511658591e-01)
      if count = 0 then f - (square - s * (square + r))
      else n * logTwo - ((square - (s * (square + r) + (n * logTwoRest + lost))) - f)

end ArrayFusion.Real
