/-
# Alignment

Items of a container begin at multiples of two or four.  `alignUp` clears the low bits of the
highest candidate; for a power of two that gives the least multiple that is not below the value.

The lengths of buffers and streams are far below the largest word, so `alignUp` is on numbers;
`maskUp` is the same on machine words, with every intermediate result.
-/

namespace Dalvik.Bytes

/-- The value rounded up to a multiple of `alignment`, a power of two (`align_to`): the bits of
`value + (alignment - 1)` that are not bits of `alignment - 1`. -/
def alignUp (value alignment : Nat) : Nat :=
  let highest := value + (alignment - 1)
  highest - (highest &&& (alignment - 1))

/-- The word rounded up (`align_to`), in the build in which sums wrap. -/
def maskUp (value alignment : UInt64) : UInt64 :=
  (value + alignment - 1) &&& ~~~(alignment - 1)

/-- The number of zero bytes from a position to the next multiple of `alignment`. -/
def padding (position alignment : Nat) : Nat :=
  alignUp position alignment - position

/-- The bytes cut off, or followed by zeros, to a length. -/
def resized (bytes : List UInt8) (length : Nat) : List UInt8 :=
  bytes.take length ++ List.replicate (length - bytes.length) 0

/-- The bytes followed by zeros up to an aligned length (`pad_to`). -/
def pad (bytes : List UInt8) (alignment : Nat) : List UInt8 :=
  resized bytes (alignUp bytes.length alignment)

/-- Rounding up never goes below the value. -/
theorem le_alignUp (value alignment : Nat) : value ≤ alignUp value alignment := by
  have h : (value + (alignment - 1)) &&& (alignment - 1) ≤ alignment - 1 := Nat.and_le_right
  rw [alignUp]
  omega

end Dalvik.Bytes
