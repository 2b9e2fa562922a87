/-
# Type descriptors

A descriptor tells its kind by its first byte: a primitive letter, `[` for an array, `L` for a
class.  Two of the primitives, long and double, take a pair of registers.
-/
import Dalvik.Bytes.Narrow
import Dalvik.Reference.Basic

namespace Dalvik

/-- The first byte of a string in its encoded form. -/
def firstByte? (s : String) : Option UInt8 :=
  s.toList.head?.bind fun c => (String.utf8EncodeChar c).head?

/-- The byte of an ASCII letter. -/
def letter (c : Char) : UInt8 :=
  c.toNat.toUInt8

/-- The number of registers that a value of the type takes (`register_width`). -/
def registerWidth (descriptor : String) : UInt16 :=
  match firstByte? descriptor with
  | some b => if b == letter 'J' || b == letter 'D' then 2 else 1
  | none => 1

/-- The letter of the type in a shorty: arrays and classes share one. -/
def shortyLetter (descriptor : String) : Char :=
  match firstByte? descriptor with
  | some b => if b == letter '[' || b == letter 'L' then 'L' else Char.ofNat b.toNat
  | none => 'L'

namespace Proto

/-- The short form of the prototype: one letter for the return type and for each parameter
(`shorty`). -/
def shorty (p : Proto) : String :=
  String.ofList (shortyLetter p.returnType :: p.parameters.map shortyLetter)

/-- The number of registers that the parameters take, without the receiver (`parameter_registers`).
It is added up in 16 bits, and the first sum that exceeds them fails. -/
def parameterRegisters (p : Proto) : Except Error UInt16 :=
  let excess := s!"{p.parameters.length} parameters exceed 65535 registers"
  p.parameters.foldlM (fun total descriptor =>
    Bytes.sum16 excess total (registerWidth descriptor)) 0

end Proto

end Dalvik
