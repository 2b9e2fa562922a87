/-
# Structural keys

Items that are shared by content are told apart by a key: a byte string that says all of the item
and where it ends.  Two items are the same exactly if their keys are equal, also where the items
hold floating-point numbers, which are keyed by their bits.
-/
import Dalvik.Bytes.LittleEndian
import Dalvik.Reference.Basic

namespace Dalvik

/-- A type whose values have a key (`write_key`). -/
class Keyed (α : Type) where
  /-- The bytes that tell a value apart from all others. -/
  key : α → List UInt8

export Keyed (key)

namespace Keyed

/-- The key of a count. -/
def count (n : Nat) : List UInt8 :=
  LittleEndian.encode n.toUInt64

instance : Keyed UInt32 where
  key := LittleEndian.encode

/-- A string is keyed by the length and the bytes of its encoded form. -/
instance : Keyed String where
  key s := count s.utf8ByteSize ++ s.toUTF8.data.toList

/-- A list is keyed by its length and the keys of its items. -/
instance {α : Type} [Keyed α] : Keyed (List α) where
  key items := count items.length ++ items.flatMap key

/-- An optional value is keyed by whether it is there. -/
instance {α : Type} [Keyed α] : Keyed (Option α) where
  key
    | some a => 1 :: key a
    | none => [0]

instance : Keyed Proto where
  key p := key p.returnType ++ key p.parameters

instance : Keyed FieldRef where
  key f := key f.owner ++ key f.name ++ key f.type

instance : Keyed MethodRef where
  key m := key m.owner ++ key m.name ++ key m.proto

end Keyed

end Dalvik
