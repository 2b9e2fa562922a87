/-
# Pools

A pool holds each of its items once.  Items are added in any order; freezing sorts the pool into the
order of the format and numbers the items anew, and from then on the place of an item is its index.
A frozen pool accepts what it already holds and nothing else.

The items and the map of their places are kept side by side: `get?` reads the items, and `index?`
and the check for new items read the map.  Places are numbers of 32 bits.
-/
import Dalvik.Bytes.Narrow

namespace Dalvik

/-- Different items under one name. -/
structure Pool (α : Type) where
  /-- What the pool holds, for messages. -/
  name : String
  items : List α := []
  /-- The place of every item; of two entries for one item the first counts. -/
  indices : List (α × UInt32) := []
  frozen : Bool := false
  deriving DecidableEq, Repr, Inhabited

namespace Pool

/-! ## 1. Items and places -/

/-- The item at a place (`get`). -/
def get? {α : Type} (p : Pool α) (place : Nat) : Option α :=
  p.items[place]?

/-- The pool with an item at the next place. -/
def grown {α : Type} (p : Pool α) (a : α) (place : UInt32) : Pool α :=
  { p with items := p.items ++ [a], indices := (a, place) :: p.indices }

/-! ## 2. Freezing -/

/-- A map with items that stand one after the other from a place on. -/
def numbered {α : Type} (indices : List (α × UInt32)) (place : Nat) :
    List α → Except Error (List (α × UInt32))
  | [] => .ok indices
  | a :: rest => do
    let index ← Bytes.narrow32 place
    numbered ((a, index) :: indices) (place + 1) rest

/-- Forgets all places and gives every item the one where it stands (`reindex`). -/
def reindex {α : Type} (p : Pool α) : Except Error (Pool α) :=
  return { p with indices := ← numbered [] 0 p.items }

/-- Takes the items in another order, numbers them anew and freezes. -/
def freezeAs {α : Type} (p : Pool α) (order : List α) : Except Error (Pool α) := do
  let sorted ← reindex { p with items := order }
  return { sorted with frozen := true }

/-- Sorts by an order and freezes (`freeze_with`). -/
def freezeWith {α : Type} (p : Pool α) (le : α → α → Bool) : Except Error (Pool α) :=
  p.freezeAs (p.items.mergeSort le)

/-- Sorts by a key, lexicographically, and freezes (`freeze_by`). -/
def freezeBy {α : Type} (p : Pool α) (sortKey : α → List Nat) : Except Error (Pool α) :=
  let keyed := p.items.map fun a => (sortKey a, a)
  let sorted := keyed.mergeSort fun a b => (compare a.1 b.1).isLE
  p.freezeAs (sorted.map (·.2))

/-! ## 3. Lookup -/

variable {α : Type} [BEq α]

/-- The place of an item (`index_of`). -/
def index? (p : Pool α) (a : α) : Option Nat :=
  (p.indices.lookup a).map UInt32.toNat

/-- Adds an item if it is new, and answers whether it is (`add`). -/
def add (p : Pool α) (a : α) : Except Error (Pool α × Bool) :=
  if (p.index? a).isSome then
    .ok (p, false)
  else if p.frozen then
    .error (.frozenPool p.name)
  else do
    let place ← Bytes.narrow32 p.items.length
    return (p.grown a place, true)

end Pool

end Dalvik
