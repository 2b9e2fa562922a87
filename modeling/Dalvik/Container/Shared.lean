/-
# Items that are shared by content

An item without an index is written once for all that need it, and found by its offset.  Two items
are the same if their keys are.  Items keep the order in which they came, and their places never
change; an offset is zero until it is set.  A new item needs a place of 32 bits.
-/
import Dalvik.Bytes.Narrow
import Dalvik.Key

namespace Dalvik

/-- Different items of a kind, each with the offset at which it was written. -/
structure SharedItems (α : Type) where
  /-- The kind of the items, for messages. -/
  name : String
  entries : List (α × UInt32) := []
  frozen : Bool := false
  deriving Inhabited

namespace SharedItems

variable {α : Type} [Keyed α]

/-- The items in the order of their places. -/
def items (t : SharedItems α) : List α :=
  t.entries.map (·.1)

/-- The offsets in the order of the places. -/
def offsets (t : SharedItems α) : List UInt32 :=
  t.entries.map (·.2)

/-- The place of an item with the same key. -/
def index? (t : SharedItems α) (a : α) : Option Nat :=
  let wanted := key a
  t.entries.findIdx? fun e => key e.1 == wanted

/-- The place of an item, which is added if it is new. -/
def intern (t : SharedItems α) (a : α) : Except Error (SharedItems α × Nat) :=
  match t.index? a with
  | some place => .ok (t, place)
  | none =>
    if t.frozen then
      .error (.frozenPool t.name)
    else do
      let _ ← Bytes.narrow32 t.entries.length
      return ({ t with entries := t.entries ++ [(a, 0)] }, t.entries.length)

/-- Accepts no new items from now on. -/
def freeze (t : SharedItems α) : SharedItems α :=
  { t with frozen := true }

/-- Sets the offset of the item at a place, if there is one. -/
def setOffset (t : SharedItems α) (place : Nat) (offset : UInt32) : SharedItems α :=
  { t with entries := t.entries.modify place fun e => (e.1, offset) }

/-- Sets the offsets of all items, each as `setOffset` does at its place. -/
def setOffsets (t : SharedItems α) (offsets : List UInt32) : SharedItems α :=
  { t with entries := t.items.zip offsets }

/-- The offset of the item at a place. -/
def offsetAt? (t : SharedItems α) (place : Nat) : Option UInt32 :=
  t.offsets[place]?

/-- The offset of the first item, and zero without items. -/
def firstOffset (t : SharedItems α) : UInt32 :=
  t.offsets.headD 0

/-- The offset of an item. -/
def offsetOf (t : SharedItems α) (a : α) : Except Error UInt32 :=
  match (t.index? a).bind t.offsetAt? with
  | some offset => .ok offset
  | none => .error (.danglingReference s!"{t.name} item")

end SharedItems

end Dalvik
