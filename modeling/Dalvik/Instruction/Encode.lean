/-
# From instructions to code units

Every code unit holds a low and a high byte; the first one holds the opcode in its low byte.
Registers go into four, eight or sixteen bits, numbers into two's complement, references into the
index that an indexer gives.  The payloads are marked by the high byte of a first unit whose opcode
is `nop`.

`Instruction.encode` finds every fault of an instruction whose fields were set freely.  Of two
faults it reports the one that its format meets first.

Writing ends with an assertion: as many units have been appended as the instruction is wide.  Only a
checked build looks, and where it does not hold the program panics, which is neither an answer nor a
failure.  Sections 1 to 4, and all that uses them elsewhere, are the build that does not look; the
checked one is in section 5.
-/
import Dalvik.Instruction.Check
import Dalvik.Reference.Indexer

namespace Dalvik

open Text (bracketed)

/-! ## 1. Packing -/

/-- The code unit of a low and a high byte. -/
def unitOf (low high : Nat) : UInt16 :=
  (low + 256 * high).toUInt16

/-- The lowest sixteen bits of a number (`low16`). -/
def lowUnit (value : Int) : UInt16 :=
  (pattern 16 value).toUInt16

/-- The two code units of a number of 32 bits, low unit first. -/
def wordUnits (value : Int) : List UInt16 :=
  [lowUnit value, lowUnit (value / 0x10000)]

/-- The code units of bytes, two to a unit; a last byte alone gets a zero beside it. -/
def unitsOfBytes (done : List UInt16) : List UInt8 → List UInt16
  | [] => done.reverse
  | [low] => (unitOf low.toNat 0 :: done).reverse
  | low :: high :: rest => unitsOfBytes (unitOf low.toNat high.toNat :: done) rest

/-- A register for a field of four bits (`nibble`). -/
def nibble (register : UInt16) : Except Error Nat :=
  if register < 0x10 then .ok register.toNat
  else .error (.malformed s!"register v{register} does not fit in 4 bits")

/-- A register for a field of eight bits (`byte`). -/
def byte (register : UInt16) : Except Error Nat :=
  if register < 0x100 then .ok register.toNat
  else .error (.malformed s!"register v{register} does not fit in 8 bits")

/-- A pool index for a field of sixteen bits (`narrow_index`). -/
def shortIndex (index : UInt32) : Except Error UInt16 :=
  if index < 0x10000 then .ok index.toUInt16
  else .error (.malformed s!"pool index {index} exceeds 16 bits")

/-- The number of entries of a switch table (`table_size`). -/
def tableSize (count : Nat) : Except Error UInt16 :=
  if count < 0x10000 then .ok count.toUInt16
  else .error (.malformed s!"switch table of {count} entries")

/-- The first unit of a switch table for consecutive keys. -/
def packedSwitchMark : UInt16 := 0x0100

/-- The first unit of a switch table with keys. -/
def sparseSwitchMark : UInt16 := 0x0200

/-- The first unit of the elements of an array. -/
def arrayDataMark : UInt16 := 0x0300

namespace Instruction

/-! ## 2. Parts of an instruction -/

/-- The operand is not of the kind that the format takes (`operand_mismatch`). -/
def operandMismatch {α : Type} (i : Instruction) : Except Error α :=
  .error (.malformed (i.misfit i.operand))

/-- The number of registers is not that of the format (`expect_registers`). -/
def registerMismatch {α : Type} (i : Instruction) (count : Nat) : Except Error α :=
  .error (.malformed s!"{i.mnemonic} takes {count} registers, got {i.registers.length}")

/-- No register. -/
def noRegister (i : Instruction) : Except Error Unit :=
  match i.registers with
  | [] => .ok ()
  | _ => i.registerMismatch 0

/-- The only register. -/
def oneRegister (i : Instruction) : Except Error UInt16 :=
  match i.registers with
  | [a] => .ok a
  | _ => i.registerMismatch 1

/-- The two registers. -/
def twoRegisters (i : Instruction) : Except Error (UInt16 × UInt16) :=
  match i.registers with
  | [a, b] => .ok (a, b)
  | _ => i.registerMismatch 2

/-- The three registers. -/
def threeRegisters (i : Instruction) : Except Error (UInt16 × UInt16 × UInt16) :=
  match i.registers with
  | [a, b, c] => .ok (a, b, c)
  | _ => i.registerMismatch 3

/-- The number of the operand, in a range of `bits` bits (`literal`). -/
def literal (i : Instruction) (bits : Nat) : Except Error Int :=
  match i.operand with
  | .literal v =>
    if fitsSigned bits v.toInt then .ok v.toInt
    else .error (.malformed s!"literal {v} out of range for {i.mnemonic}")
  | _ => i.operandMismatch

/-- The branch distance, in a range of `bits` bits (`branch`). -/
def branch (i : Instruction) (bits : Nat) : Except Error Int :=
  match i.operand with
  | .branch d =>
    if fitsSigned bits d.toInt then .ok d.toInt
    else .error (.malformed s!"branch delta {d} out of range for {i.mnemonic}")
  | _ => i.operandMismatch

/-- The sixteen bits of a high constant. -/
def highLiteral (i : Instruction) : Except Error Int := do
  let value ← i.literal 64
  if fitsHigh i.highShift value then
    return value / pow2 i.highShift
  else
    let digits := Text.hex (pattern 64 value)
    throw (.malformed s!"{i.mnemonic} literal 0x{digits} has bits outside the high 16")

/-- The index of a reference, which must point into the given pool (`reference_index`). -/
def indexInto (ix : Indexer) (i : Instruction) (expected : Option ReferenceKind)
    (r : Reference) : Except Error UInt32 :=
  if expected == some r.kind then
    ix r
  else
    let pool := match expected with
      | some kind => Text.tagged "Some" [kind.inspect]
      | none => "None"
    .error (.malformed s!"{i.mnemonic} expects a {pool} reference, got {r.text}")

/-- The index of the first reference. -/
def firstIndex (ix : Indexer) (i : Instruction) : Except Error UInt32 :=
  match i.operand with
  | .reference r | .dualReference r _ => i.indexInto ix i.expectedReferences[0]? r
  | _ => i.operandMismatch

/-- The index of the second reference. -/
def secondIndex (ix : Indexer) (i : Instruction) : Except Error UInt32 :=
  match i.operand with
  | .dualReference _ r => i.indexInto ix i.expectedReferences[1]? r
  | _ => i.operandMismatch

/-- Up to five registers: the high byte of the first unit, with their number and the last of them,
and the unit of the first four (`packed_registers`). -/
def packedRegisters (i : Instruction) : Except Error (Nat × UInt16) := do
  if 5 < i.registers.length then
    throw (.malformed s!"{i.mnemonic} takes at most 5 registers, got {i.registers.length}")
  let nibbles ← i.registers.mapM nibble
  let slot (k : Nat) : Nat := nibbles.getD k 0
  return (slot 4 + 16 * nibbles.length,
    (slot 0 + 16 * slot 1 + 256 * slot 2 + 4096 * slot 3).toUInt16)

/-- Consecutive registers: their number, and the first of them (`register_range`). -/
def registerRange (i : Instruction) : Except Error (Nat × UInt16) :=
  let count := i.registers.length
  let first := i.registers.headD 0
  if 0xFF < count then
    .error (.malformed s!"register range of {count} exceeds 255")
  else if i.registers.map UInt16.toNat != List.range' first.toNat count then
    let listed := bracketed (i.registers.map toString)
    .error (.malformed s!"{i.mnemonic} registers {listed} are not contiguous")
  else
    .ok (count, first)

/-! ## 3. Encoding -/

/-- The first unit, with the opcode in its low byte. -/
def head (i : Instruction) (high : Nat) : UInt16 :=
  unitOf i.opcode.toNat high

/-- **Encoding.**  The code units of an instruction (`encode_instruction`). -/
def encode (ix : Indexer) (i : Instruction) : Except Error (List UInt16) := do
  match i.format with
  | .f10x =>
    i.noRegister
    return [i.head 0]
  | .f12x =>
    let (a, b) ← i.twoRegisters
    return [i.head ((← nibble a) + 16 * (← nibble b))]
  | .f11n =>
    let a ← i.oneRegister
    let value ← i.literal 4
    return [i.head ((← nibble a) + 16 * pattern 4 value)]
  | .f11x =>
    let a ← i.oneRegister
    return [i.head (← byte a)]
  | .f10t =>
    i.noRegister
    let delta ← i.branch 8
    return [i.head (pattern 8 delta)]
  | .f20t =>
    i.noRegister
    let delta ← i.branch 16
    return [i.head 0, lowUnit delta]
  | .f22x =>
    let (a, b) ← i.twoRegisters
    return [i.head (← byte a), b]
  | .f21t =>
    let a ← byte (← i.oneRegister)
    let delta ← i.branch 16
    return [i.head a, lowUnit delta]
  | .f21s =>
    let a ← byte (← i.oneRegister)
    let value ← i.literal 16
    return [i.head a, lowUnit value]
  | .f21h =>
    let a ← i.oneRegister
    let value ← i.highLiteral
    return [i.head (← byte a), lowUnit value]
  | .f21c =>
    let a ← i.oneRegister
    let index ← shortIndex (← i.firstIndex ix)
    return [i.head (← byte a), index]
  | .f23x =>
    let (a, b, c) ← i.threeRegisters
    return [i.head (← byte a), unitOf (← byte b) (← byte c)]
  | .f22b =>
    let (a, b) ← i.twoRegisters
    let value ← i.literal 8
    return [i.head (← byte a), unitOf (← byte b) (pattern 8 value)]
  | .f22t =>
    let (a, b) ← i.twoRegisters
    let high := (← nibble a) + 16 * (← nibble b)
    let delta ← i.branch 16
    return [i.head high, lowUnit delta]
  | .f22s =>
    let (a, b) ← i.twoRegisters
    let high := (← nibble a) + 16 * (← nibble b)
    let value ← i.literal 16
    return [i.head high, lowUnit value]
  | .f22c =>
    let (a, b) ← i.twoRegisters
    let index ← shortIndex (← i.firstIndex ix)
    return [i.head ((← nibble a) + 16 * (← nibble b)), index]
  | .f32x =>
    let (a, b) ← i.twoRegisters
    return [i.head 0, a, b]
  | .f30t =>
    i.noRegister
    let delta ← i.branch 32
    return i.head 0 :: wordUnits delta
  | .f31t =>
    let a ← byte (← i.oneRegister)
    let delta ← i.branch 32
    return i.head a :: wordUnits delta
  | .f31i =>
    let a ← byte (← i.oneRegister)
    let value ← i.literal 32
    return i.head a :: wordUnits value
  | .f31c =>
    let a ← i.oneRegister
    let index ← i.firstIndex ix
    return i.head (← byte a) :: wordUnits index.toNat
  | .f35c =>
    let (high, registers) ← i.packedRegisters
    let index ← shortIndex (← i.firstIndex ix)
    return [i.head high, index, registers]
  | .f45cc =>
    let (high, registers) ← i.packedRegisters
    let index ← shortIndex (← i.firstIndex ix)
    let proto ← shortIndex (← i.secondIndex ix)
    return [i.head high, index, registers, proto]
  | .f3rc =>
    let (count, first) ← i.registerRange
    let index ← shortIndex (← i.firstIndex ix)
    return [i.head count, index, first]
  | .f4rcc =>
    let (count, first) ← i.registerRange
    let index ← shortIndex (← i.firstIndex ix)
    let proto ← shortIndex (← i.secondIndex ix)
    return [i.head count, index, first, proto]
  | .f51l =>
    let a ← i.oneRegister
    let value ← i.literal 64
    return i.head (← byte a) :: (wordUnits value ++ wordUnits (value / 0x100000000))
  | .packedSwitch =>
    match i.operand with
    | .packedSwitch firstKey targets =>
      let size ← tableSize targets.length
      return packedSwitchMark :: size ::
        (wordUnits firstKey.toInt ++ targets.flatMap fun d => wordUnits d.toInt)
    | _ => i.operandMismatch
  | .sparseSwitch =>
    match i.operand with
    | .sparseSwitch keys targets =>
      if keys.length != targets.length then
        throw (.malformed
          s!"sparse switch has {keys.length} keys and {targets.length} targets")
      let size ← tableSize keys.length
      return sparseSwitchMark :: size ::
        (keys ++ targets).flatMap fun v => wordUnits v.toInt
    | _ => i.operandMismatch
  | .arrayData =>
    match i.operand with
    | .arrayData elementWidth data =>
      if !holdsElements elementWidth data then
        throw (.malformed (unevenArray elementWidth data))
      let count := data.length / elementWidth.toNat
      if 0x100000000 ≤ count then
        throw (.malformed "array data too large")
      return arrayDataMark :: elementWidth :: (wordUnits count ++ unitsOfBytes [] data)
    | _ => i.operandMismatch

end Instruction

/-! ## 4. Code under construction -/

/-- A step that appends code units; one that fails leaves behind what it had appended. -/
abbrev CodeWriter := EStateM Error (Array UInt16)

namespace CodeWriter

/-- Appends a code unit. -/
def push (unit : UInt16) : CodeWriter Unit :=
  modify fun (done : Array UInt16) => done.push unit

/-- Appends a number of 32 bits, low unit first (`push_u32`). -/
def pushWord (value : Int) : CodeWriter Unit := do
  push (lowUnit value)
  push (lowUnit (value / 0x10000))

/-- Appends bytes, two to a unit; a last byte alone gets a zero beside it. -/
def pushBytes : List UInt8 → CodeWriter Unit
  | [] => pure ()
  | [low] => push (unitOf low.toNat 0)
  | low :: high :: rest => do
    push (unitOf low.toNat high.toNat)
    pushBytes rest

/-- The number of code units so far (`position`). -/
def position : CodeWriter Nat :=
  return (← get).size

/-- Drops the code units from a position on. -/
def truncate (start : Nat) : CodeWriter Unit :=
  modify fun (done : Array UInt16) => done.shrink start

end CodeWriter

namespace Instruction

open CodeWriter

/-- **Writing.**  Appends the units of an instruction one after the other (`write_instruction`).
Many formats have appended units before they meet a fault; `CodeWriter.emit` takes these back. -/
def write (ix : Indexer) (i : Instruction) : CodeWriter Unit := do
  match i.format with
  | .f10x =>
    i.noRegister
    push (i.head 0)
  | .f12x =>
    let (a, b) ← i.twoRegisters
    push (i.head ((← nibble a) + 16 * (← nibble b)))
  | .f11n =>
    let a ← i.oneRegister
    let value ← i.literal 4
    push (i.head ((← nibble a) + 16 * pattern 4 value))
  | .f11x =>
    let a ← i.oneRegister
    push (i.head (← byte a))
  | .f10t =>
    i.noRegister
    let delta ← i.branch 8
    push (i.head (pattern 8 delta))
  | .f20t =>
    i.noRegister
    push (i.head 0)
    push (lowUnit (← i.branch 16))
  | .f22x =>
    let (a, b) ← i.twoRegisters
    push (i.head (← byte a))
    push b
  | .f21t =>
    let a ← i.oneRegister
    push (i.head (← byte a))
    push (lowUnit (← i.branch 16))
  | .f21s =>
    let a ← i.oneRegister
    push (i.head (← byte a))
    push (lowUnit (← i.literal 16))
  | .f21h =>
    let a ← i.oneRegister
    let value ← i.highLiteral
    push (i.head (← byte a))
    push (lowUnit value)
  | .f21c =>
    let a ← i.oneRegister
    let index ← shortIndex (← i.firstIndex ix)
    push (i.head (← byte a))
    push index
  | .f23x =>
    let (a, b, c) ← i.threeRegisters
    push (i.head (← byte a))
    push (unitOf (← byte b) (← byte c))
  | .f22b =>
    let (a, b) ← i.twoRegisters
    let value ← i.literal 8
    push (i.head (← byte a))
    push (unitOf (← byte b) (pattern 8 value))
  | .f22t =>
    let (a, b) ← i.twoRegisters
    push (i.head ((← nibble a) + 16 * (← nibble b)))
    push (lowUnit (← i.branch 16))
  | .f22s =>
    let (a, b) ← i.twoRegisters
    push (i.head ((← nibble a) + 16 * (← nibble b)))
    push (lowUnit (← i.literal 16))
  | .f22c =>
    let (a, b) ← i.twoRegisters
    let index ← shortIndex (← i.firstIndex ix)
    push (i.head ((← nibble a) + 16 * (← nibble b)))
    push index
  | .f32x =>
    let (a, b) ← i.twoRegisters
    push (i.head 0)
    push a
    push b
  | .f30t =>
    i.noRegister
    push (i.head 0)
    pushWord (← i.branch 32)
  | .f31t =>
    let a ← i.oneRegister
    push (i.head (← byte a))
    pushWord (← i.branch 32)
  | .f31i =>
    let a ← i.oneRegister
    push (i.head (← byte a))
    pushWord (← i.literal 32)
  | .f31c =>
    let a ← i.oneRegister
    let index ← i.firstIndex ix
    push (i.head (← byte a))
    pushWord index.toNat
  | .f35c =>
    let (high, registers) ← i.packedRegisters
    let index ← shortIndex (← i.firstIndex ix)
    push (i.head high)
    push index
    push registers
  | .f45cc =>
    let (high, registers) ← i.packedRegisters
    let index ← shortIndex (← i.firstIndex ix)
    push (i.head high)
    push index
    push registers
    push (← shortIndex (← i.secondIndex ix))
  | .f3rc =>
    let (count, first) ← i.registerRange
    let index ← shortIndex (← i.firstIndex ix)
    push (i.head count)
    push index
    push first
  | .f4rcc =>
    let (count, first) ← i.registerRange
    let index ← shortIndex (← i.firstIndex ix)
    push (i.head count)
    push index
    push first
    push (← shortIndex (← i.secondIndex ix))
  | .f51l =>
    let a ← i.oneRegister
    let value ← i.literal 64
    push (i.head (← byte a))
    pushWord value
    pushWord (value / 0x100000000)
  | .packedSwitch =>
    match i.operand with
    | .packedSwitch firstKey targets =>
      push packedSwitchMark
      push (← tableSize targets.length)
      pushWord firstKey.toInt
      targets.forM fun d => pushWord d.toInt
    | _ => i.operandMismatch
  | .sparseSwitch =>
    match i.operand with
    | .sparseSwitch keys targets =>
      if keys.length != targets.length then
        throw (.malformed
          s!"sparse switch has {keys.length} keys and {targets.length} targets")
      push sparseSwitchMark
      push (← tableSize keys.length)
      (keys ++ targets).forM fun v => pushWord v.toInt
    | _ => i.operandMismatch
  | .arrayData =>
    match i.operand with
    | .arrayData elementWidth data =>
      if !holdsElements elementWidth data then
        throw (.malformed (unevenArray elementWidth data))
      let count := data.length / elementWidth.toNat
      if 0x100000000 ≤ count then
        throw (.malformed "array data too large")
      push arrayDataMark
      push elementWidth
      pushWord count
      pushBytes data
    | _ => i.operandMismatch

end Instruction

namespace CodeWriter

/-- Appends an instruction, or nothing of it (`emit`). -/
def emit (ix : Indexer) (i : Instruction) : CodeWriter Unit := do
  let start ← position
  try
    i.write ix
  catch cause =>
    truncate start
    throw cause

/-- Appends instructions in order; the first that cannot be encoded ends the run. -/
def emitAll (ix : Indexer) (code : List Instruction) : CodeWriter Unit :=
  code.forM (emit ix)

end CodeWriter

/-! ## 5. Checked builds -/

/-- How a step of a checked build ends that does not succeed. -/
inductive Stop where
  /-- A failure, which the other build has too. -/
  | fault (cause : Error)
  /-- An assertion that does not hold. -/
  | panic
  deriving DecidableEq, Repr

/-- A step of a checked build that appends code units. -/
abbrev CheckedWriter := EStateM Stop (Array UInt16)

namespace Instruction

/-- **Writing with the check** at its end that the instruction is as wide as what was appended. -/
def writeChecked (ix : Indexer) (i : Instruction) : CheckedWriter Unit := do
  let start := (← get).size
  (i.write ix).adaptExcept .fault
  if (← get).size - start != i.width then
    throw .panic

/-- The code units of an instruction in a checked build. -/
def encodeChecked (ix : Indexer) (i : Instruction) : Except Stop (List UInt16) :=
  match i.writeChecked ix #[] with
  | .ok _ units => .ok units.toList
  | .error stop _ => .error stop

end Instruction

/-- Appends an instruction, or nothing of it in the case of a fault; a panic takes nothing back. -/
def CheckedWriter.emit (ix : Indexer) (i : Instruction) : CheckedWriter Unit := do
  let start := (← get).size
  try
    i.writeChecked ix
  catch
    | .fault cause =>
      modify fun (done : Array UInt16) => done.shrink start
      throw (.fault cause)
    | .panic => throw .panic

end Dalvik
