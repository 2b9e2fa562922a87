/-
# Little-endian fields

A field of fixed width is written lowest byte first.  `LittleEndian` says what a type needs for
that: its width, and a numbering of its values that fits the width.  Signed types are numbered by
their two's complement, and floating-point numbers are carried as their bits, so the unsigned
instances serve them too.

Main statements: `length_encode` (a field has its width) and `decode_encode` (it reads back).
-/
import Dalvik.Bytes.Power
import Dalvik.Error

namespace Dalvik

namespace Bytes

/-! ## 1. Numbers as bytes -/

/-- The lowest `width` bytes of a number, lowest first. -/
def ofNat : (width : Nat) → Nat → List UInt8
  | 0, _ => []
  | width + 1, n => n.toUInt8 :: ofNat width (n / 256)

/-- The number that bytes stand for, lowest first. -/
def toNat : List UInt8 → Nat
  | [] => 0
  | b :: rest => b.toNat + 256 * toNat rest

@[simp] theorem length_ofNat (width n : Nat) : (ofNat width n).length = width := by
  induction width generalizing n with
  | zero => rfl
  | succ width ih => simp [ofNat, ih]

theorem toNat_ofNat (width n : Nat) : toNat (ofNat width n) = n % pow2 (8 * width) := by
  induction width generalizing n with
  | zero => simp [ofNat, toNat, Nat.mod_one]
  | succ width ih =>
    have h : n.toUInt8.toNat = n % 256 := by simp
    have hp : pow2 (8 * (width + 1)) = 256 * pow2 (8 * width) := by
      rw [show 8 * (width + 1) = 8 + 8 * width by omega, pow2_add]
      rfl
    simp only [ofNat, toNat, h, ih]
    rw [hp, Nat.mod_mul]

end Bytes

/-! ## 2. Types with a field form -/

/-- A type whose values are written in a fixed number of bytes, lowest byte first. -/
class LittleEndian (α : Type) where
  /-- The number of bytes of a field. -/
  width : Nat
  /-- The number that stands for a value. -/
  toNat : α → Nat
  /-- The value that a number stands for. -/
  ofNat : Nat → α
  toNat_lt (a : α) : toNat a < pow2 (8 * width)
  ofNat_toNat (a : α) : ofNat (toNat a) = a

namespace LittleEndian

instance : LittleEndian UInt8 where
  width := 1
  toNat := UInt8.toNat
  ofNat := Nat.toUInt8
  toNat_lt a := a.toNat_lt
  ofNat_toNat a := by simp

instance : LittleEndian UInt16 where
  width := 2
  toNat := UInt16.toNat
  ofNat := Nat.toUInt16
  toNat_lt a := a.toNat_lt
  ofNat_toNat a := by simp

instance : LittleEndian UInt32 where
  width := 4
  toNat := UInt32.toNat
  ofNat := Nat.toUInt32
  toNat_lt a := a.toNat_lt
  ofNat_toNat a := by simp

instance : LittleEndian UInt64 where
  width := 8
  toNat := UInt64.toNat
  ofNat := Nat.toUInt64
  toNat_lt a := a.toNat_lt
  ofNat_toNat a := by simp

instance : LittleEndian Int8 where
  width := 1
  toNat a := a.toUInt8.toNat
  ofNat n := n.toUInt8.toInt8
  toNat_lt a := a.toUInt8.toNat_lt
  ofNat_toNat a := by simp

instance : LittleEndian Int16 where
  width := 2
  toNat a := a.toUInt16.toNat
  ofNat n := n.toUInt16.toInt16
  toNat_lt a := a.toUInt16.toNat_lt
  ofNat_toNat a := by simp

instance : LittleEndian Int32 where
  width := 4
  toNat a := a.toUInt32.toNat
  ofNat n := n.toUInt32.toInt32
  toNat_lt a := a.toUInt32.toNat_lt
  ofNat_toNat a := by simp

instance : LittleEndian Int64 where
  width := 8
  toNat a := a.toUInt64.toNat
  ofNat n := n.toUInt64.toInt64
  toNat_lt a := a.toUInt64.toNat_lt
  ofNat_toNat a := by simp

variable {α : Type} [LittleEndian α]

/-- The bytes of a field. -/
def encode (a : α) : List UInt8 :=
  Bytes.ofNat (width α) (toNat a)

/-- The value of the bytes of a field. -/
def decode (bytes : List UInt8) : α :=
  ofNat (Bytes.toNat bytes)

@[simp] theorem length_encode (a : α) : (encode a).length = width α :=
  Bytes.length_ofNat _ _

theorem encode_ne_nil (h : 0 < width α) (a : α) : encode a ≠ [] := by
  rw [← List.length_pos_iff, length_encode]
  exact h

/-- **A field reads back.** -/
@[simp] theorem decode_encode (a : α) : decode (encode a) = a := by
  rw [decode, encode, Bytes.toNat_ofNat, Nat.mod_eq_of_lt (toNat_lt a), ofNat_toNat]

/-! ## 3. Fields inside a buffer -/

end LittleEndian

/-- A step that writes over parts of a buffer. -/
abbrev BufferWriter := EStateM Error (List UInt8)

/-- Writes bytes over those from an offset on. -/
def Bytes.overwrite (offset : Nat) (bytes : List UInt8) : BufferWriter Unit :=
  modify fun data => data.take offset ++ bytes ++ data.drop (offset + bytes.length)

namespace LittleEndian

variable {α : Type} [LittleEndian α]

/-- The value of the field at an offset, and the offset after it (`read_le_at`). -/
def readAt (α : Type) [LittleEndian α] (data : List UInt8) (offset : Nat) :
    Except Error (α × Nat) :=
  if width α + offset ≤ data.length then
    .ok (decode ((data.drop offset).take (width α)), offset + width α)
  else
    .error .outOfBounds

/-- The buffer with the field at an offset replaced, and the offset after it. -/
def writeAt (data : List UInt8) (offset : Nat) (a : α) : Except Error (List UInt8 × Nat) :=
  if width α + offset ≤ data.length then
    .ok (data.take offset ++ encode a ++ data.drop (offset + width α), offset + width α)
  else
    .error .outOfBounds

/-- Writes the field over the bytes at an offset, and answers the offset after it
(`write_le_at`). -/
def put (offset : Nat) (a : α) : BufferWriter Nat := do
  let (data, next) ← writeAt (← get) offset a
  set data
  return next

end LittleEndian

end Dalvik
