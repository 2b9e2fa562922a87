/-
# Numbers that must fit a field

Counts, offsets and indices are unbounded while they are computed and are checked once, where they
are written into a field of 16 or 32 bits.  The message names the field, not the number.

Registers are counted in 16 bits from the start, so every sum of them is checked.
-/
import Dalvik.Error

namespace Dalvik.Bytes

/-- A number for a field of 32 bits (`to_u32`). -/
def narrow32 (value : Nat) : Except Error UInt32 :=
  if value < 0x100000000 then
    .ok value.toUInt32
  else
    .error (.malformed "DEX serialization value \x7bvalue\x7d exceeds u32::MAX")

/-- A number for a field of 16 bits (`to_u16`). -/
def narrow16 (value : Nat) : Except Error UInt16 :=
  if value < 0x10000 then
    .ok value.toUInt16
  else
    .error (.malformed "Value \x7bvalue\x7d exceeds u16::MAX")

/-- A sum of 16 bits, or a failure in the given words. -/
def sum16 (excess : String) (a b : UInt16) : Except Error UInt16 :=
  if a.toNat + b.toNat < 0x10000 then
    .ok (a + b)
  else
    .error (.malformed excess)

theorem narrow32_eq_ok {n : Nat} {v : UInt32} (h : narrow32 n = .ok v) : v.toNat = n := by
  unfold narrow32 at h
  split at h
  case isTrue hn =>
    cases h
    rw [Nat.toUInt32_eq, UInt32.toNat_ofNat_of_lt' hn]
  case isFalse => cases h

theorem narrow16_eq_ok {n : Nat} {v : UInt16} (h : narrow16 n = .ok v) : v.toNat = n := by
  unfold narrow16 at h
  split at h
  case isTrue hn =>
    cases h
    rw [Nat.toUInt16_eq, UInt16.toNat_ofNat_of_lt' hn]
  case isFalse => cases h

end Dalvik.Bytes
