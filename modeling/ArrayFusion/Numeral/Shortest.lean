/-!
# Shortest decimal text of a double

The text of a finite double has the fewest significant digits that still read back as the same
double, and among the decimals of that length it is the one nearest to the value. The search works
on exact natural numbers: a positive double is `m * 2 ^ q`, the reals that round to it form an
interval around it, and on the grid of decimals with `n` digits only the two neighbours of the
value have to be looked at. `Decimal.Style` holds the decisions of one text format.
-/

namespace ArrayFusion.Decimal

/-- A positive rational: `num / den`. -/
structure Ratio where
  num : Nat
  den : Nat

/-- A positive double and the interval of reals that round to it, over one denominator. -/
structure Rounding where
  low : Nat
  value : Nat
  high : Nat
  den : Nat
  /-- The ends of the interval round to the value too. -/
  closed : Bool

/-- Decodes the bits of a positive finite double. The unit is a quarter of the last place, because
below a power of two the spacing halves. -/
def Rounding.ofBits (bits : Nat) : Rounding :=
  let field := (bits >>> 52) % 0x800
  let fraction := bits % (1 <<< 52)
  let m := if field = 0 then fraction else fraction + (1 <<< 52)
  let q : Int := (max field 1 : Nat) - 1077
  let scale := 1 <<< q.toNat
  { low := (if fraction = 0 ∧ 1 < field then 4 * m - 1 else 4 * m - 2) * scale
    value := 4 * m * scale
    high := (4 * m + 2) * scale
    den := 1 <<< (-q).toNat
    closed := m % 2 = 0 }

/-- `p / r.den` lies in the interval, for `p` given as a ratio over `den`. -/
def Rounding.contains (r : Rounding) (p : Ratio) : Bool :=
  let low := r.low * p.den
  let high := r.high * p.den
  let x := p.num * r.den
  if r.closed then decide (low ≤ x) && decide (x ≤ high) else decide (low < x) && decide (x < high)

/-- Number of digits before the decimal point of `num / den`, zero or negative for values below
one: the `k` with `10 ^ (k - 1) ≤ num / den < 10 ^ k`. -/
def magnitude (num den : Nat) : Int :=
  if den ≤ num then (Nat.toDigits 10 (num / den)).length
  else
    let shifted := (List.range 400).find? fun k => den ≤ num * Nat.pow 10 k
    1 - (shifted.getD 400 : Nat)

/-- `d * 10 ^ e` as a ratio. -/
def gridPoint (d : Nat) (e : Int) : Ratio :=
  ⟨d * Nat.pow 10 e.toNat, Nat.pow 10 (-e).toNat⟩

/-- On the grid `10 ^ e`, the neighbour of the value that reads back, the nearer one if both do.
A tie goes up. -/
def Rounding.onGrid (r : Rounding) (e : Int) : Option Nat :=
  let unit := gridPoint 1 e
  let scaled := r.value * unit.den
  let step := r.den * unit.num
  let below := scaled / step
  let rest := scaled % step
  match r.contains (gridPoint below e), r.contains (gridPoint (below + 1) e) with
  | true, true => some (if step ≤ 2 * rest then below + 1 else below)
  | true, false => some below
  | false, true => some (below + 1)
  | false, false => none

/-- Shortest digits `d` and exponent `e` with `d * 10 ^ e` reading back as the double. -/
def Rounding.shortest (r : Rounding) : Nat × Int :=
  let k := magnitude r.value r.den
  let found := (List.range 18).findSome? fun n =>
    (r.onGrid (k - (n + 1 : Nat))).map fun d => (d, k - (n + 1 : Nat))
  found.getD (0, 0)

/-- Removes the trailing zeros of `d`, at most `fuel` of them, into the exponent. -/
def trim : Nat → Nat × Int → Nat × Int
  | 0, x => x
  | fuel + 1, (d, e) => if d % 10 = 0 ∧ d ≠ 0 then trim fuel (d / 10, e + 1) else (d, e)

/-- What a text format of doubles decides. -/
structure Style where
  /-- Values below `10 ^ low` are written with an exponent. -/
  low : Int
  /-- Values from `10 ^ high` on are written with an exponent. -/
  high : Int
  /-- The mark before the exponent. -/
  mark : String

/-- A whole number keeps one zero behind the point, and exponents appear below `1e-4` and from
`1e16` on. -/
def Style.plain : Style := ⟨-4, 16, "e"⟩

/-- Positional text of `digits * 10 ^ e`, with at least one digit on both sides of the point. -/
def positional (digits : List Char) (e : Int) : String :=
  let point := digits.length + e
  if 0 ≤ e then String.ofList (digits ++ List.replicate e.toNat '0') ++ ".0"
  else if 0 < point then
    String.ofList (digits.take point.toNat ++ '.' :: digits.drop point.toNat)
  else String.ofList ('0' :: '.' :: (List.replicate (-point).toNat '0' ++ digits))

/-- Text of `digits * 10 ^ e` with one digit before the point. -/
def scientific (style : Style) (digits : List Char) (e : Int) : String :=
  let exponent := digits.length + e - 1
  let fraction := digits.drop 1
  let point := if fraction.isEmpty then [] else ['.']
  String.ofList (digits.take 1 ++ point ++ fraction) ++ style.mark ++ toString exponent

/-- Text of a positive finite double, given by its bits. -/
def positiveText (style : Style) (bits : Nat) : String :=
  let (d, e) := trim 20 (Rounding.ofBits bits).shortest
  let digits := Nat.toDigits 10 d
  let point := digits.length + e
  if style.low < point ∧ point ≤ style.high then positional digits e
  else scientific style digits e

/-- Text of a finite double. Zero keeps its sign. -/
def finiteText (style : Style) (x : Float) : String :=
  let bits := x.toBits.toNat
  let magnitude := bits % (1 <<< 63)
  let sign := if bits < 1 <<< 63 then "" else "-"
  if magnitude = 0 then sign ++ "0.0" else sign ++ positiveText style magnitude

end ArrayFusion.Decimal
