/-
# Access flags

The flags of a class, a field or a method, as bits.  Some bits mean one thing on a field and another
on a method; bits without a meaning are kept.
-/

namespace Dalvik

/-- The access flags of a class, a field or a method. -/
structure AccessFlags where
  bits : UInt32 := 0
  deriving DecidableEq, Repr, Inhabited

namespace AccessFlags

/-- Visible to the defining class only. -/
def privateBit : UInt32 := 0x2

/-- Not bound to an instance. -/
def staticBit : UInt32 := 0x8

/-- A constructor or a static initializer. -/
def constructorBit : UInt32 := 0x10000

/-- All bits with a meaning: fifteen low ones, constructors, and declared synchronization. -/
def known : UInt32 := 0x37FFF

/-- Whether the flags say static. -/
def isStatic (f : AccessFlags) : Bool :=
  f.bits &&& staticBit != 0

/-- Whether a method with the flags is direct: static, private or a constructor
(`is_direct_method`). -/
def isDirect (f : AccessFlags) : Bool :=
  f.bits &&& (staticBit ||| privateBit ||| constructorBit) != 0

/-- The flags without the bits that have no meaning. -/
def truncated (f : AccessFlags) : AccessFlags :=
  ⟨f.bits &&& known⟩

/-- Whether all bits have a meaning. -/
def isKnown (f : AccessFlags) : Bool :=
  f.truncated == f

end AccessFlags

end Dalvik
