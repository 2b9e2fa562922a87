/-
# From code units to instructions

Decoding reads one instruction from the front of the code units.  It accepts only what encoding
writes: bits that a format leaves unused have to be zero, a register count has to be possible, and
references come out as bare indices.

The offset of an instruction is only named in messages; what is decoded depends on the code units
alone.
-/
import Dalvik.Instruction.Encode

namespace Dalvik

/-! ## 1. Unpacking -/

/-- The low byte of a code unit. -/
def lowByte (u : UInt16) : Nat :=
  u.toNat % 256

/-- The high byte of a code unit. -/
def highByte (u : UInt16) : Nat :=
  u.toNat / 256

/-- The number of 32 bits in two code units, low unit first. -/
def wordOf (low high : UInt16) : Nat :=
  low.toNat + 0x10000 * high.toNat

/-- The signed number of 32 bits in two code units. -/
def signedWord (low high : UInt16) : Int32 :=
  Int32.ofInt (signed 32 (wordOf low high))

/-- The signed numbers of 32 bits in code units; a last unit alone is left out. -/
def signedWords : List UInt16 → List Int32
  | low :: high :: rest => signedWord low high :: signedWords rest
  | _ => []

/-- The bytes of code units, low byte first. -/
def bytesOfUnits (units : List UInt16) : List UInt8 :=
  units.flatMap fun u => [(lowByte u).toUInt8, (highByte u).toUInt8]

/-- The code units of bytes, low byte first (`units_from_bytes`). -/
def unitsOfStream (data : List UInt8) : Except Error (List UInt16) :=
  if data.length % 2 != 0 then
    .error (.malformed
      s!"instruction stream of {data.length} bytes is not a whole number of code units")
  else
    .ok (unitsOfBytes [] data)

namespace Instruction

/-! ## 2. Payloads -/

/-- The payload that the first of the code units marks (`decode_payload`). -/
def decodePayload (offset : Nat) (units : List UInt16) : Except Error (Instruction × Nat) :=
  match units with
  | [] => .error .outOfBounds
  | mark :: rest =>
    if mark == packedSwitchMark then
      match rest with
      | size :: low :: high :: table =>
        let length := 2 * size.toNat
        if table.length < length then .error .outOfBounds
        else
          .ok (packedSwitchPayload (signedWord low high) (signedWords (table.take length)),
            4 + length)
      | _ => .error .outOfBounds
    else if mark == sparseSwitchMark then
      match rest with
      | size :: table =>
        let length := 2 * size.toNat
        if table.length < 2 * length then .error .outOfBounds
        else
          .ok (sparseSwitchPayload (signedWords (table.take length))
            (signedWords ((table.drop length).take length)), 2 + 2 * length)
      | _ => .error .outOfBounds
    else if mark == arrayDataMark then
      match rest with
      | elementWidth :: low :: high :: table =>
        let size := wordOf low high * elementWidth.toNat
        let length := (size + 1) / 2
        let data := bytesOfUnits (table.take length)
        if !isElementWidth elementWidth then
          .error (.malformed s!"array data at {offset} has {elementWidth}-byte elements")
        else if table.length < length then
          .error .outOfBounds
        else if data.getD size 0 != 0 then
          .error (.malformed s!"array data at {offset} has nonzero padding")
        else
          .ok (arrayDataPayload elementWidth (data.take size), 4 + length)
      | _ => .error .outOfBounds
    else
      .error (.malformed
        s!"Invalid payload identifier 0x{Text.hexPadded 4 mark.toNat} at {offset}")

/-! ## 3. Single instructions -/

/-- Bits that a format leaves unused have to be zero. -/
def checkUnused (operation : Operation) (offset bits : Nat) : Except Error Unit :=
  if bits == 0 then .ok ()
  else
    .error (.malformed
      s!"{operation.mnemonic} at {offset} sets unused operand bits 0x{Text.hex bits}")

/-- A bare index as the only reference. -/
def oneReference (operation : Operation) (index : Nat) : Operand :=
  .reference (.raw (operation.references.getD 0 .string) index.toUInt32)

/-- Two bare indices (`dual_reference`). -/
def twoReferences (operation : Operation) (first second : UInt16) : Operand :=
  .dualReference (.raw (operation.references.getD 0 .string) first.toUInt32)
    (.raw (operation.references.getD 1 .string) second.toUInt32)

/-- Up to five registers from their number, the last of them and the unit of the first four. -/
def unpackRegisters (operation : Operation) (offset high : Nat) (packed : UInt16) :
    Except Error (List UInt16) := do
  let count := high / 16
  let slots := packed.toNat + 0x10000 * (high % 16)
  if 5 < count then
    throw (.malformed s!"{operation.mnemonic} at {offset} names {count} registers")
  checkUnused operation offset (slots / pow2 (4 * count))
  return (List.range count).map fun k => (slots / pow2 (4 * k) % 16).toUInt16

/-- Consecutive registers from their number and the first of them. -/
def unpackRange (offset count : Nat) (first : UInt16) : Except Error (List UInt16) :=
  if 0x10000 < first.toNat + count && 0 < count then
    .error (.malformed s!"register range overflows at {offset}")
  else
    .ok ((List.range' first.toNat count).map Nat.toUInt16)

/-- A signed number as a literal. -/
def literalOf (bits n : Nat) : Operand :=
  .literal (Int64.ofInt (signed bits n))

/-- A signed number as a branch distance. -/
def branchOf (bits n : Nat) : Operand :=
  .branch (Int32.ofInt (signed bits n))

/-- The registers and the operand of an instruction: `high` is the high byte of its first unit,
and `tail` the units after the first, as many as the format has. -/
def unpack (opcode : UInt8) (operation : Operation) (offset high : Nat) (tail : List UInt16) :
    Except Error (List UInt16 × Operand) := do
  let low4 := (high % 16).toUInt16
  let high4 := (high / 16).toUInt16
  let a := high.toUInt16
  let unused := checkUnused operation offset high
  match operation.format, tail with
  | .f10x, [] =>
    unused
    return ([], .none)
  | .f12x, [] => return ([low4, high4], .none)
  | .f11n, [] => return ([low4], literalOf 4 (high / 16))
  | .f11x, [] => return ([a], .none)
  | .f10t, [] => return ([], branchOf 8 high)
  | .f20t, [b] =>
    unused
    return ([], branchOf 16 b.toNat)
  | .f22x, [b] => return ([a, b], .none)
  | .f21t, [b] => return ([a], branchOf 16 b.toNat)
  | .f21s, [b] => return ([a], literalOf 16 b.toNat)
  | .f21h, [b] =>
    let shift := highShift { opcode, format := .f21h }
    return ([a], .literal (Int64.ofInt (signed 16 b.toNat * pow2 shift)))
  | .f21c, [b] => return ([a], oneReference operation b.toNat)
  | .f23x, [b] => return ([a, (lowByte b).toUInt16, (highByte b).toUInt16], .none)
  | .f22b, [b] => return ([a, (lowByte b).toUInt16], literalOf 8 (highByte b))
  | .f22t, [b] => return ([low4, high4], branchOf 16 b.toNat)
  | .f22s, [b] => return ([low4, high4], literalOf 16 b.toNat)
  | .f22c, [b] => return ([low4, high4], oneReference operation b.toNat)
  | .f32x, [b, c] =>
    unused
    return ([b, c], .none)
  | .f30t, [b, c] =>
    unused
    return ([], .branch (signedWord b c))
  | .f31t, [b, c] => return ([a], .branch (signedWord b c))
  | .f31i, [b, c] => return ([a], literalOf 32 (wordOf b c))
  | .f31c, [b, c] => return ([a], oneReference operation (wordOf b c))
  | .f35c, [b, c] =>
    let registers ← unpackRegisters operation offset high c
    return (registers, oneReference operation b.toNat)
  | .f45cc, [b, c, d] =>
    let registers ← unpackRegisters operation offset high c
    return (registers, twoReferences operation b d)
  | .f3rc, [b, c] =>
    let registers ← unpackRange offset high c
    return (registers, oneReference operation b.toNat)
  | .f4rcc, [b, c, d] =>
    let registers ← unpackRange offset high c
    return (registers, twoReferences operation b d)
  | .f51l, [b, c, d, e] =>
    return ([a], literalOf 64 (wordOf b c + 0x100000000 * wordOf d e))
  | _, _ => throw .outOfBounds

/-- **Decoding.**  The instruction at the front of the code units, and its width. -/
def decode (offset : Nat) (units : List UInt16) : Except Error (Instruction × Nat) := do
  match units with
  | [] => throw .outOfBounds
  | first :: rest =>
    let opcode := (lowByte first).toUInt8
    let operation := Operation.ofOpcode opcode
    if opcode == 0 && first != 0 then
      decodePayload offset units
    else if !operation.isAssigned then
      throw (.unknownOpcode opcode offset)
    else
      let (registers, operand) ←
        unpack opcode operation offset (highByte first) (rest.take (operation.format.width - 1))
      return ({ opcode, format := operation.format, registers, operand }, operation.format.width)

/-- The instruction that starts at an offset, and its width (`decode_instruction`). -/
def decodeAt (units : List UInt16) (offset : Nat) : Except Error (Instruction × Nat) :=
  decode offset (units.drop offset)

/-! ## 4. Streams -/

/-- The instructions of a stream of at most `limit` code units. -/
def decodeUpTo :
    (limit : Nat) → (offset : Nat) → List UInt16 → Except Error (List Instruction)
  | _, _, [] => .ok []
  | 0, _, _ :: _ => .ok []
  | limit + 1, offset, units => do
    let (i, width) ← decode offset units
    return i :: (← decodeUpTo limit (offset + width) (units.drop width))

/-- **Decoding a stream.**  Its instructions, one after the other; every instruction takes at least
one code unit, so the length of the stream bounds their number (`decode_stream`). -/
def decodeStream (units : List UInt16) : Except Error (List Instruction) :=
  decodeUpTo units.length 0 units

end Instruction

end Dalvik
