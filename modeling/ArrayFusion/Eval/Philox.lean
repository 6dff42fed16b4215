/-!
# Counter based random numbers

The generator scrambles a 64 bit counter with a key in ten rounds. Each round multiplies one half
of the counter by a constant, mixes the high half of the product with the other half and the key,
and moves the key on.
-/

namespace ArrayFusion.Philox

/-- Both halves of the counter. -/
structure Counter where
  low : UInt32
  high : UInt32
  deriving DecidableEq, Repr

def multiplier : UInt64 := 0xd256d193

/-- What is added to the key after each round. -/
def keyStep : UInt32 := 0x9e3779b9

/-- One round with a key. -/
def round (key : UInt32) (c : Counter) : Counter :=
  let product := multiplier * c.low.toUInt64
  ⟨(product >>> 32).toUInt32 ^^^ key ^^^ c.high, product.toUInt32⟩

/-- A number of rounds. The key moves on after each. -/
def rounds : Nat → UInt32 → Counter → Counter
  | 0, _, c => c
  | n + 1, key, c => rounds n (key + keyStep) (round key c)

/-- Random word of a stream at an index. -/
def word (start key index : UInt64) : UInt64 :=
  let counter := start + index
  let c := rounds 10 key.toUInt32 ⟨counter.toUInt32, (counter >>> 32).toUInt32⟩
  c.high.toUInt64 <<< 32 ||| c.low.toUInt64

end ArrayFusion.Philox
