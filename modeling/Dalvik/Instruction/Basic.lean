/-
# Instructions

An instruction is a plain value: opcode, format, registers and operand.  It has no position and no
identity; a method body hands those out.

The format of an instruction is that of its opcode, except for the three payloads, which share the
opcode of `nop` and are told apart by their format alone.  `Instruction.build?` keeps to that and
checks the operand; the fields can also be set freely, and then encoding is what finds the faults.
-/
import Dalvik.Instruction.Opcode

namespace Dalvik

open Text (bracketed record tagged)

/-! ## 1. Operands -/

/-- The operand of an instruction. -/
inductive Operand where
  | none
  /-- A signed number; where only the high bits are encoded, the whole number. -/
  | literal (value : Int64)
  /-- A distance in code units from the start of the instruction. -/
  | branch (delta : Int32)
  /-- A reference into a pool. -/
  | reference (r : Reference)
  /-- The callee and the prototype of a polymorphic call. -/
  | dualReference (callee proto : Reference)
  /-- A switch table for consecutive keys, with distances from the switch. -/
  | packedSwitch (firstKey : Int32) (targets : List Int32)
  /-- A switch table with a distance for each key. -/
  | sparseSwitch (keys targets : List Int32)
  /-- The elements of an array, as bytes. -/
  | arrayData (elementWidth : UInt16) (data : List UInt8)
  deriving DecidableEq, Repr, Inhabited

/-- The operand with all its parts. -/
def Operand.inspect : Operand → String
  | none => "None"
  | literal value => tagged "Literal" [toString value]
  | branch delta => tagged "Branch" [toString delta]
  | reference r => tagged "Reference" [r.inspect]
  | dualReference callee proto => tagged "DualReference" [callee.inspect, proto.inspect]
  | packedSwitch firstKey targets =>
    record "PackedSwitch" [("first_key", toString firstKey),
      ("targets", bracketed (targets.map toString))]
  | sparseSwitch keys targets =>
    record "SparseSwitch" [("keys", bracketed (keys.map toString)),
      ("targets", bracketed (targets.map toString))]
  | arrayData elementWidth data =>
    record "ArrayData" [("element_width", toString elementWidth),
      ("data", bracketed (data.map toString))]

/-! ## 2. Instructions -/

/-- One instruction. -/
structure Instruction where
  /-- The opcode, zero for payloads. -/
  opcode : UInt8
  /-- How the instruction is packed. -/
  format : Format
  /-- The registers it names, in the order of encoding; a range is listed in full. -/
  registers : List UInt16 := []
  operand : Operand := .none
  deriving DecidableEq, Repr, Inhabited

namespace Instruction

/-- The instruction that does nothing (`nop`). -/
def nop : Instruction where
  opcode := 0
  format := .f10x

/-- A switch table for consecutive keys (`packed_switch_payload`). -/
def packedSwitchPayload (firstKey : Int32) (targets : List Int32) : Instruction where
  opcode := 0
  format := .packedSwitch
  operand := .packedSwitch firstKey targets

/-- A switch table with a distance for each key (`sparse_switch_payload`). -/
def sparseSwitchPayload (keys targets : List Int32) : Instruction where
  opcode := 0
  format := .sparseSwitch
  operand := .sparseSwitch keys targets

/-- The elements of an array (`array_data_payload`). -/
def arrayDataPayload (elementWidth : UInt16) (data : List UInt8) : Instruction where
  opcode := 0
  format := .arrayData
  operand := .arrayData elementWidth data

/-- The mnemonic; that of a payload is the name of its format (`mnemonic`). -/
def mnemonic (i : Instruction) : String :=
  if i.format.isPayload then i.format.text else (Operation.ofOpcode i.opcode).mnemonic

/-- The number of code units that the instruction takes (`width`). -/
def width (i : Instruction) : Nat :=
  match i.operand with
  | .packedSwitch _ targets => 4 + 2 * targets.length
  | .sparseSwitch keys _ => 2 + 4 * keys.length
  | .arrayData _ data => 4 + (data.length + 1) / 2
  | _ => i.format.width

theorem width_pos (i : Instruction) : 0 < i.width := by
  unfold width
  split
  case h_4 => exact i.format.width_pos
  all_goals omega

@[simp] theorem width_nop : nop.width = 1 := rfl

/-- Whether the instruction is a table among the code (`is_payload`). -/
def isPayload (i : Instruction) : Bool :=
  i.format.isPayload

/-- The references that the instruction holds, in the order of encoding (`references`). -/
def references (i : Instruction) : List Reference :=
  match i.operand with
  | .reference r => [r]
  | .dualReference callee proto => [callee, proto]
  | _ => []

/-- The number of argument registers of a call, as far as 16 bits go, and zero for other
instructions (`argument_registers`). -/
def argumentRegisters (i : Instruction) : UInt16 :=
  if i.format.isInvoke then
    if i.registers.length < 0x10000 then i.registers.length.toUInt16 else 0xFFFF
  else
    0

/-- The pools that the operand has to refer into. -/
def expectedReferences (i : Instruction) : List ReferenceKind :=
  if i.format.isPayload then [] else (Operation.ofOpcode i.opcode).references

/-- The opcode of the constant that fills the high bits of a register pair. -/
def constWideHigh16 : UInt8 := 0x19

/-- How far the 16 bits of a high constant are from the low end. -/
def highShift (i : Instruction) : Nat :=
  if i.opcode == constWideHigh16 then 48 else 16

end Instruction

end Dalvik
