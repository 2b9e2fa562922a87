/-
# Variable-length integers

A number of 32 bits is written in groups of seven bits, lowest first; every byte but the last has
its high bit set.  The signed form ends as soon as the bits left over all equal the highest bit
written.  How such numbers are read is said with the cursor.
-/

namespace Dalvik.Leb128

/-! ## 1. What is left after a group -/

theorem toNat_shift7 (v : UInt32) : (v >>> 7).toNat = v.toNat / 128 := by
  rw [UInt32.toNat_shiftRight, Nat.shiftRight_eq_div_pow]
  rfl

theorem toInt_shift7 (v : Int32) : (v >>> 7).toInt = v.toInt / 128 := by
  rw [← Int32.toInt_toBitVec, Int32.toBitVec_shiftRight, BitVec.sshiftRight_eq',
    BitVec.toInt_sshiftRight, Int32.toInt_toBitVec, Int.shiftRight_eq_div_pow]
  rfl

/-! ## 2. Writing -/

/-- The bytes of an unsigned number (`write_uleb128`). -/
def encodeUnsigned (value : UInt32) : List UInt8 :=
  let group := (value &&& 0x7F).toUInt8
  let rest := value >>> 7
  if rest == 0 then [group] else (group ||| 0x80) :: encodeUnsigned rest
termination_by value.toNat
decreasing_by
  have hleft : ¬ (value >>> 7 == 0) = true := ‹_›
  rw [beq_iff_eq, ← UInt32.toNat_inj, toNat_shift7, UInt32.toNat_zero] at hleft
  have hrest : (value >>> 7).toNat < value.toNat := by
    rw [toNat_shift7]
    omega
  exact hrest

/-- Whether a number is no more than the sign of its lowest group. -/
def isLast (value : Int32) : Bool :=
  let negative := (value.toUInt32 &&& 0x7F).toUInt8 &&& 0x40 != 0
  let rest := value >>> 7
  (rest == 0 && !negative) || (rest == -1 && negative)

/-- The bytes of a signed number (`write_sleb128`). -/
def encodeSigned (value : Int32) : List UInt8 :=
  let group := (value.toUInt32 &&& 0x7F).toUInt8
  if isLast value then [group] else (group ||| 0x80) :: encodeSigned (value >>> 7)
termination_by value.toInt.natAbs
decreasing_by
  have hleft : ¬ isLast value = true := ‹_›
  have hzero : value.toInt ≠ 0 := by
    intro h
    rw [show value = 0 from Int32.toInt_inj.mp h] at hleft
    exact hleft (by decide)
  have hone : value.toInt ≠ -1 := by
    intro h
    rw [show value = -1 from Int32.toInt_inj.mp h] at hleft
    exact hleft (by decide)
  rw [toInt_shift7]
  omega

/-- The number of bytes of an unsigned number (`uleb128_size`). -/
def unsignedSize (value : UInt32) : Nat :=
  if value < 0x80 then 1
  else if value < 0x4000 then 2
  else if value < 0x200000 then 3
  else if value < 0x10000000 then 4
  else 5

/-! ## 3. Reading -/

/-- A byte that another byte of the same number follows. -/
def continues (b : UInt8) : Bool :=
  b &&& 0x80 != 0

/-- The signed number of the bits that have been read: copies of the highest of them, which is in
the last byte, go above them if there is room. -/
def signExtended (last : UInt8) (shift bits : UInt32) : Int32 :=
  if shift < 32 && last &&& 0x40 != 0 then
    (bits ||| 0xFFFFFFFF <<< shift).toInt32
  else
    bits.toInt32

end Dalvik.Leb128
