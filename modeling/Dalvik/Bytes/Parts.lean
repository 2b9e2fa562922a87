/-
# Items in parts

An item of a container is written part by part, and a part can fail, because a reference in it has
no index.  The parts of an item are a list, so items compose by concatenation, and `joined` is the
item as a whole.
-/
import Dalvik.Bytes.LittleEndian
import Dalvik.Bytes.Leb128
import Dalvik.Bytes.Narrow

namespace Dalvik

/-- A part of an item: its bytes, or why it cannot be written. -/
abbrev Part := Except Error (List UInt8)

namespace Part

/-! ## 1. Single parts -/

/-- A part that is there already. -/
def bytes (data : List UInt8) : Part :=
  .ok data

/-- A field of fixed width. -/
def field {α : Type} [LittleEndian α] (value : α) : Part :=
  .ok (LittleEndian.encode value)

/-- An unsigned variable-length integer. -/
def uleb128 (value : Except Error UInt32) : Part :=
  value.map Leb128.encodeUnsigned

/-- A count, as an unsigned variable-length integer. -/
def count (n : Nat) : Part :=
  uleb128 (Bytes.narrow32 n)

/-! ## 2. Items -/

/-- The bytes of all parts, or the first failure. -/
def joined : List Part → Except Error (List UInt8)
  | [] => .ok []
  | part :: rest => do return (← part) ++ (← joined rest)

/-- An item of one part is the part. -/
theorem joined_singleton (part : Part) : joined [part] = part := by
  cases part with
  | error e => rfl
  | ok data => exact congrArg Except.ok (List.append_nil data)

end Part

end Dalvik
