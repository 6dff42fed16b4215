/-!
# Kernel hash

A 64 bit hash that is the same in every run and on every platform: each byte is mixed into the low
end of the state, which is then multiplied by an odd prime. The hash of a text covers its bytes and
a closing byte that no text contains, so no text is a proper beginning of another one.
-/

namespace ArrayFusion.Fnv

/-- State before the first byte. -/
def start : UInt64 := 0xcbf29ce484222325

/-- State after one more byte. -/
def step (state : UInt64) (byte : UInt8) : UInt64 :=
  (state ^^^ byte.toUInt64) * 0x100000001b3

/-- State after more bytes. -/
def write (state : UInt64) (bytes : List UInt8) : UInt64 := bytes.foldl step state

theorem write_append (state : UInt64) (xs ys : List UInt8) :
    write state (xs ++ ys) = write (write state xs) ys := List.foldl_append

/-- Hash of a text. -/
def ofText (s : String) : UInt64 := step (write start s.toUTF8.toList) 0xff

/-- Lower case hexadecimal digits without leading zeros. -/
def hex (x : UInt64) : String := String.ofList (Nat.toDigits 16 x.toNat)

/-- Name of the file that holds a kernel compiled from the source with the second hash in the
surroundings described by the first. -/
def fileName (context source : UInt64) (extension : String) : String :=
  hex context ++ "_" ++ hex source ++ extension

end ArrayFusion.Fnv
