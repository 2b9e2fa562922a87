/-
# From references to indices

An `Indexer` gives the pool index of a reference or reports it as dangling.  The pools of a
container are one; `rawIndices` is the one that takes bare indices as they are, which is enough to
write decoded code again.
-/
import Dalvik.Error
import Dalvik.Reference.Basic

namespace Dalvik

/-- Finds the pool index of a reference (`ReferenceIndexer`). -/
abbrev Indexer := Reference → Except Error UInt32

namespace Indexer

/-- The failure of an indexer that does not hold a reference. -/
def dangling {α : Type} (r : Reference) : Except Error α :=
  .error (.danglingReference r.text)

/-- Accepts bare indices unchanged, and nothing else (`RawIndices`). -/
def rawIndices : Indexer
  | .raw _ index => .ok index
  | r => dangling r

/-- Looks references up in a table; bare indices pass if `acceptRaw` holds. -/
def ofTable (table : List (Reference × UInt32)) (acceptRaw : Bool) : Indexer
  | .raw kind index => if acceptRaw then .ok index else dangling (.raw kind index)
  | r => match table.lookup r with
    | some index => .ok index
    | none => dangling r

end Indexer

end Dalvik
