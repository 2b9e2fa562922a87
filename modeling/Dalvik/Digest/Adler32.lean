/-
# Adler-32

The checksum of a container: two sums modulo 65521, of the bytes and of the first sums, side by
side in 32 bits.
-/

namespace Dalvik

namespace Adler32

/-- The largest prime below 2^16. -/
def modulus : Nat := 65521

/-- The two running sums after one more byte. -/
def step (sums : Nat × Nat) (b : UInt8) : Nat × Nat :=
  let low := (sums.1 + b.toNat) % modulus
  (low, (sums.2 + low) % modulus)

/-- The checksum of a byte string. -/
def checksum (bytes : List UInt8) : UInt32 :=
  let sums := bytes.foldl step (1, 0)
  (sums.2 * 0x10000 + sums.1).toUInt32

end Adler32

end Dalvik
