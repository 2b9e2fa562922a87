/-
# A region of a container under construction

A stream is the bytes of one region and the offset at which the region starts, so that an item's
offset in the container is known before it is written.  A step that fails keeps what it appended
before it failed.

Padding is counted within the region; its offset agrees with the container's as long as the region
starts at a multiple of the alignment.
-/
import Dalvik.Bytes.Align
import Dalvik.Bytes.Parts

namespace Dalvik

/-- The bytes of a region, and where it starts (`ByteStream`). -/
structure Stream where
  /-- The offset of the first byte in the container. -/
  base : UInt32
  data : Array UInt8 := #[]
  deriving DecidableEq, Repr, Inhabited

/-- A step of writing. -/
abbrev StreamWriter := EStateM Error Stream

namespace Stream

/-! ## 1. Positions -/

/-- The offset in the container of the byte that comes next. -/
def next (s : Stream) : Except Error UInt32 := do
  let length ← Bytes.narrow32 s.data.size
  if s.base.toNat + length.toNat < 0x100000000 then
    return s.base + length
  else
    throw (.malformed "Stream position exceeds u32::MAX")

/-- Whether the byte that comes next has an offset, and it is a multiple of `alignment`
(`is_aligned`). -/
def isAligned (s : Stream) (alignment : UInt32) : Bool :=
  match s.next with
  | .ok offset => offset % alignment == 0
  | .error _ => false

/-- The offset in the container of the byte that comes next (`position`). -/
def position : StreamWriter UInt32 := do
  (← get).next

/-! ## 2. Appending -/

/-- Appends bytes. -/
def bytes (data : List UInt8) : StreamWriter Unit :=
  modify fun s => { s with data := s.data ++ data }

/-- Appends zeros up to a multiple of `alignment` within the region (`align`). -/
def align (alignment : Nat) : StreamWriter Unit :=
  modify fun s =>
    { s with data := s.data ++ List.replicate (Bytes.padding s.data.size alignment) (0 : UInt8) }

/-- Appends parts, up to the first that fails. -/
def parts : List Part → StreamWriter Unit
  | [] => return
  | .ok data :: rest => do
    bytes data
    parts rest
  | .error cause :: _ => throw cause

/-- Appends an item at a multiple of `alignment`, and answers its offset. -/
def item (alignment : Nat) (item : List Part) : StreamWriter UInt32 := do
  align alignment
  let offset ← position
  parts item
  return offset

/-- Appends items in order, and answers their offsets. -/
def items (alignment : Nat) : List (List Part) → StreamWriter (List UInt32)
  | [] => return []
  | first :: rest => do
    let offset ← item alignment first
    return offset :: (← items alignment rest)

/-- Names what is being written in the failures of a step. -/
def inside {α : Type} (context : String) (step : StreamWriter α) : StreamWriter α := fun s =>
  match step s with
  | .ok a s => .ok a s
  | .error cause s => .error (cause.inside context) s

/-! ## 3. Patching -/

/-- Replaces the four bytes at an offset of the container (`patch_u32`). -/
def patch (offset value : UInt32) : StreamWriter Unit := do
  let s ← get
  let start := offset.toNat - s.base.toNat
  if s.base ≤ offset && start + 4 ≤ s.data.size then
    let patched := s.data.extract 0 start ++ LittleEndian.encode value ++
      s.data.extract (start + 4) s.data.size
    set { s with data := patched }
  else
    throw .outOfBounds

end Stream

end Dalvik
