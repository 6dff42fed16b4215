/-!
# Half precision numbers

A half precision number is held by its sixteen bits: a sign, five exponent bits with bias 15 and
ten significand bits. Widening to double precision is exact. Narrowing looks at the sign, the
exponent and the leading twenty significand bits of the double and rounds these to the nearest
half, a tie going to the even neighbour.
-/

namespace ArrayFusion.Half

/-- Quotient of `n` by `2 ^ shift`, rounded to nearest with ties to even. -/
def roundShift (n shift : Nat) : Nat :=
  let quotient := n >>> shift
  let rest := n % (1 <<< shift)
  if 1 <<< shift < 2 * rest ∨ (1 <<< shift = 2 * rest ∧ quotient % 2 = 1) then quotient + 1
  else quotient

/-- Bits of the half nearest to the double with the given bits. Every NaN stays a NaN, and values
beyond the largest half become infinite. -/
def narrowBits (double : Nat) : Nat :=
  let sign := (double >>> 63) * 0x8000
  let exponent := (double >>> 52) % 0x800
  let leading := (double >>> 32) % 0x100000
  if exponent = 0x7ff then
    let quiet := if double % (1 <<< 52) = 0 then 0 else 0x200
    sign + (0x7c00 ||| quiet ||| leading >>> 10)
  else
    let halfExponent : Int := exponent - 1008
    if halfExponent ≥ 31 then sign + 0x7c00
    else
      let field := (max halfExponent 1).toNat
      sign + ((field - 1) * 0x400 + roundShift (0x100000 + leading) (10 + (field - halfExponent).toNat))

/-- Nearest half of a double, as bits. -/
def ofFloat (x : Float) : UInt16 :=
  (narrowBits x.toBits.toNat).toUInt16

/-- The double with the same value as the half with the given bits. -/
def toFloat (bits : UInt16) : Float :=
  let word := bits.toNat
  let exponent := (word >>> 10) % 0x20
  let fraction := word % 0x400
  let magnitude : Float :=
    if exponent = 0x1f then
      if fraction = 0 then Float.ofBits 0x7ff0000000000000 else Float.ofBits 0x7ff8000000000000
    else if exponent = 0 then fraction.toFloat * Float.ofBits 0x3e70000000000000
    else Float.ofBits (((exponent + 1008) <<< 52) + (fraction <<< 42)).toUInt64
  if word < 0x8000 then magnitude else -magnitude

end ArrayFusion.Half
