/-
# Options of writing

What a container may be written like, apart from its classes.
-/

namespace Dalvik

/-- How to write a container (`WriterConfig`). -/
structure Container.Options where
  /-- The format version, for the magic. -/
  version : UInt16 := 35
  /-- Whether a parameter without annotations has an empty set, and not none. -/
  emptySet : Bool := true
  /-- A method that passes more registers than this to a call has at least as many itself. -/
  maxOuts : UInt16 := 5
  deriving DecidableEq, Repr, Inhabited

end Dalvik
