/-
# Several containers

A placement says for each class in which of several archives it goes, by number.  Only archives with
classes are written, in the order of their numbers, and each from its own classes alone.

The classes are gone through once, and each is put in the group of its archive.  Groups stand in the
order of their archives all the time, so the group of a class is searched by halving; and where
there is none yet, the search ends at the place where it belongs.

The containers are written in a loop over the groups, each laid out and assembled in an output of
its own.
-/
import Dalvik.Container.Image

namespace Dalvik

/-! ## 1. Searching -/

/-- Where an item is among others in order, or where it would go. -/
inductive Place where
  | found (place : Nat)
  | missing (place : Nat)
  deriving DecidableEq, Repr

/-- Searches the places from `low` up to `high` by halving; `order` says how the item at a place
compares to the one that is sought (`binary_search_by_key`). -/
def Place.search (order : Nat → Ordering) (low high : Nat) : Place :=
  if low < high then
    let middle := low + (high - low) / 2
    match order middle with
    | .eq => .found middle
    | .lt => search order (middle + 1) high
    | .gt => search order low middle
  else
    .missing low
termination_by high - low

/-! ## 2. Placing -/

/-- The number of the archive of each class. -/
abbrev Placement := ClassDef → Nat

/-- The classes of an archive, in the order in which they are given (an item of what `partition`
returns). -/
structure Group where
  archive : Nat
  members : List ClassDef

namespace Placement

/-- Everything in one archive (`SingleDex`). -/
def single : Placement := fun _ => 0

/-- By the start of the descriptor: the first start that matches decides, and without one the
class is in archive zero. -/
def ofStarts (starts : List (String × Nat)) : Placement := fun d =>
  ((starts.find? fun (start, _) => d.descriptor.startsWith start).map (·.2)).getD 0

/-- How the archive of the group at a place compares to another; past the last group there is only
what is greater. -/
def order (groups : Array Group) (archive place : Nat) : Ordering :=
  (groups[place]?.map fun g => compare g.archive archive).getD .gt

/-- Puts a class last in the group of its archive, or in a group of its own if there is none. -/
def add (p : Placement) (groups : Array Group) (d : ClassDef) : Array Group :=
  match Place.search (order groups (p d)) 0 groups.size with
  | .found place => groups.modify place fun g => { g with members := g.members ++ [d] }
  | .missing place => groups.insertIdxIfInBounds place { archive := p d, members := [d] }

/-- **The classes of each archive**, in the order of the archives (`partition`). -/
def groups (p : Placement) (classes : List ClassDef) : List Group :=
  (classes.foldl p.add #[]).toList

end Placement

/-! ## 3. Writing -/

namespace Container

section Digests

variable (sign : List UInt8 → Vector UInt8 20) (sum : List UInt8 → UInt32)

/-- One more archive: the container of a group is laid out and assembled in memory, and put behind
those that are there (the body of the loop of `write_all`). -/
def pushArchive (options : Container.Options) (archives : Array (List UInt8)) (g : Group) :
    Except Error (Array (List UInt8)) := do
  let image ← Image.ofClasses options g.members
  let o ← image.assembleWith sign sum (Output.inMemory image.size)
  return archives.push (← o.taken none)

/-- The bytes of all containers, sealed with the given digests. -/
def writeAllWith (options : Container.Options) (placement : Placement) (classes : List ClassDef) :
    Except Error (List (List UInt8)) := do
  let archives ← (placement.groups classes).foldlM (pushArchive sign sum options) #[]
  return archives.toList

end Digests

/-- **The bytes of all containers** (`write_all`): the groups are gone through in order, and the
first that cannot be laid out or assembled ends the loop. -/
def writeAll (options : Container.Options) (placement : Placement) (classes : List ClassDef) :
    Except Error (List (List UInt8)) :=
  writeAllWith Sha1.digest Adler32.checksum options placement classes

end Container

end Dalvik
