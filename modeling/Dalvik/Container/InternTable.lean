/-
# A table of items under construction

A table keeps three things in step: the items in the order in which they came, the place of every
key, and the offset of every place.  An item is looked up by its key alone, and its offset by its
place.  The steps change the table in place; one that fails has changed nothing yet.

`InternTable.shared` is what a table holds, without the keys.
-/
import Dalvik.Container.Shared

namespace Dalvik

/-- Items that are told apart by their keys, with an offset for each. -/
structure InternTable (α : Type) where
  /-- The kind of the items, for messages. -/
  name : String
  items : Array α := #[]
  /-- The place of every key. -/
  places : List (List UInt8 × UInt32) := []
  /-- The offset of every place, zero until it is set. -/
  offsets : Array UInt32 := #[]
  frozen : Bool := false
  deriving Inhabited

/-- A step over a table. -/
abbrev Interner (α : Type) := EStateM Error (InternTable α)

namespace InternTable

variable {α : Type} [Keyed α]

/-- The place of an item with the same key (`index_of`). -/
def index? (t : InternTable α) (a : α) : Option UInt32 :=
  t.places.lookup (key a)

/-- The offset of a place (`offset_at`). -/
def offsetAt? (t : InternTable α) (place : UInt32) : Option UInt32 :=
  t.offsets[place.toNat]?

/-- The offset of an item with the same key (`offset_of`). -/
def offsetOf (t : InternTable α) (a : α) : Except Error UInt32 :=
  match (t.index? a).bind t.offsetAt? with
  | some offset => .ok offset
  | none => .error (.danglingReference s!"{t.name} item")

/-- The table with an item at the next place. -/
def grown (t : InternTable α) (a : α) (place : UInt32) : InternTable α :=
  { t with
    items := t.items.push a
    places := (key a, place) :: t.places
    offsets := t.offsets.push 0 }

/-- Answers the place of an item, which is added if it is new (`intern`). -/
def intern (a : α) : Interner α UInt32 := do
  match (← get).index? a with
  | some place => return place
  | none =>
    if (← get).frozen then
      throw (.frozenPool (← get).name)
    let place ← Bytes.narrow32 (← get).items.size
    modify fun t => t.grown a place
    return place

/-- Sets the offset of a place, if it is there (`set_offset`). -/
def setOffset (place offset : UInt32) : Interner α Unit :=
  modify fun t => { t with offsets := t.offsets.setIfInBounds place.toNat offset }

/-- Accepts no new items from now on (`freeze`). -/
def freeze : Interner α Unit :=
  modify fun t => { t with frozen := true }

/-- The items with their offsets. -/
def shared (t : InternTable α) : SharedItems α where
  name := t.name
  entries := t.items.toList.zip t.offsets.toList
  frozen := t.frozen

end InternTable

end Dalvik
