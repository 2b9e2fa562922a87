/-
# Operands that fit

An operand fits an instruction if its kind is that of the format, its number is in the range that
the format has bits for, and its references point into the pools of the opcode.  Registers are not
looked at here.
-/
import Dalvik.Bytes.Signed
import Dalvik.Instruction.Basic

namespace Dalvik

/-- Whether only the sixteen bits from `shift` on are set, and the sign goes with them. -/
def fitsHigh (shift : Nat) (value : Int) : Bool :=
  value % pow2 shift == 0 && fitsSigned 16 (value / pow2 shift)

/-- Whether array elements can have this width. -/
def isElementWidth (width : UInt16) : Bool :=
  width == 1 || width == 2 || width == 4 || width == 8

/-- Whether bytes hold whole elements of a width. -/
def holdsElements (width : UInt16) (data : List UInt8) : Bool :=
  isElementWidth width && data.length % width.toNat == 0

namespace Instruction

/-- Whether the kind and the range of an operand are those of the format. -/
def fits (i : Instruction) (operand : Operand) : Bool :=
  match i.format, operand with
  | .f10x, .none | .f12x, .none | .f11x, .none | .f22x, .none | .f23x, .none | .f32x, .none => true
  | .f11n, .literal v => fitsSigned 4 v.toInt
  | .f22b, .literal v => fitsSigned 8 v.toInt
  | .f21s, .literal v | .f22s, .literal v => fitsSigned 16 v.toInt
  | .f31i, .literal v => fitsSigned 32 v.toInt
  | .f21h, .literal v => fitsHigh i.highShift v.toInt
  | .f51l, .literal _ => true
  | .f10t, .branch d => fitsSigned 8 d.toInt
  | .f20t, .branch d | .f21t, .branch d | .f22t, .branch d => fitsSigned 16 d.toInt
  | .f30t, .branch _ | .f31t, .branch _ => true
  | .f21c, .reference r | .f22c, .reference r | .f31c, .reference r | .f35c, .reference r
  | .f3rc, .reference r => i.expectedReferences.head? == some r.kind
  | .f45cc, .dualReference callee proto | .f4rcc, .dualReference callee proto =>
    i.expectedReferences == [callee.kind, proto.kind]
  | .packedSwitch, .packedSwitch _ _ | .sparseSwitch, .sparseSwitch _ _
  | .arrayData, .arrayData _ _ => true
  | _, _ => false

/-- An operand of the wrong kind or range, in words. -/
def misfit (i : Instruction) (operand : Operand) : String :=
  s!"{operand.inspect} does not fit {i.mnemonic} ({i.format.text})"

/-- Bytes that do not hold whole elements, in words. -/
def unevenArray (elementWidth : UInt16) (data : List UInt8) : String :=
  s!"array data of {data.length} bytes does not hold {elementWidth}-byte elements"

/-- **Checking an operand** that the instruction has or is about to get (`check_operand`). -/
def checkOperand (i : Instruction) (operand : Operand) : Except Error Unit :=
  if !i.fits operand then
    .error (.invalidOperand (i.misfit operand))
  else
    match operand with
    | .sparseSwitch keys targets =>
      if keys.length != targets.length then
        .error (.invalidOperand
          s!"sparse switch has {keys.length} keys but {targets.length} targets")
      else
        .ok ()
    | .arrayData elementWidth data =>
      if !holdsElements elementWidth data then
        .error (.invalidOperand (unevenArray elementWidth data))
      else
        .ok ()
    | _ => .ok ()

/-- The instruction of an opcode, with an operand that fits it (`new`). -/
def build? (opcode : UInt8) (registers : List UInt16) (operand : Operand) :
    Except Error Instruction :=
  let operation := Operation.ofOpcode opcode
  if !operation.isAssigned then
    .error (.unknownOpcode opcode 0)
  else
    let i : Instruction := { opcode, format := operation.format, registers, operand }
    (i.checkOperand operand).map fun _ => i

/-- The instruction of a mnemonic, with an operand that fits it (`from_mnemonic`). -/
def ofMnemonic (mnemonic : String) (registers : List UInt16) (operand : Operand) :
    Except Error Instruction := do
  build? (← Operation.opcode mnemonic) registers operand

end Instruction

end Dalvik
