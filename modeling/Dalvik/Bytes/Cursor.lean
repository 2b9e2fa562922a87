/-
# Reading from a position

A `Cursor` is a byte string with a position in it.  A `Reader` moves the cursor; when it fails, the
cursor stays where the failure left it, which is where it was, except that a variable-length
integer has been passed over as far as it was read.
-/
import Dalvik.Bytes.Leb128
import Dalvik.Bytes.LittleEndian
import Dalvik.Text.Mutf8

namespace Dalvik

/-- A byte string and a position in it (`Parser`). -/
structure Cursor where
  /-- All the bytes. -/
  data : List UInt8
  /-- The number of bytes before the position. -/
  position : Nat := 0
  deriving Repr, DecidableEq, Inhabited

/-- A step of reading: moves a cursor, and answers or fails. -/
abbrev Reader := EStateM Error Cursor

namespace Cursor

/-- A cursor at the start of the bytes. -/
def ofList (data : List UInt8) : Cursor :=
  { data }

/-- The bytes from the position on. -/
def rest (c : Cursor) : List UInt8 :=
  c.data.drop c.position

/-- The number of bytes from the position on (`remaining`). -/
def remaining (c : Cursor) : Nat :=
  c.data.length - c.position

/-- Whether bytes are left (`has_more_data`). -/
def hasMore (c : Cursor) : Bool :=
  c.position < c.data.length

/-- What a reader answers from the cursor on. -/
def answer {α : Type} (c : Cursor) (r : Reader α) : Except Error α :=
  match r c with
  | .ok a _ => .ok a
  | .error cause _ => .error cause

/-! ## 1. Moving -/

/-- Moves to a position, at most the end (`seek`). -/
def seek (position : Nat) : Reader Unit := do
  let c ← get
  if position ≤ c.data.length then
    set { c with position }
  else
    throw .outOfBounds

/-- Moves forward (`advance_by`). -/
def advance (count : Nat) : Reader Unit := do
  seek ((← get).position + count)

/-- Moves to the next multiple of `alignment` (`align`). -/
def align (alignment : Nat) : Reader Unit := do
  advance ((alignment - (← get).position % alignment) % alignment)

/-! ## 2. Reading -/

/-- Reads a number of bytes (`read_bytes`). -/
def bytes (count : Nat) : Reader (List UInt8) := do
  let c ← get
  advance count
  return c.rest.take count

/-- Reads a block of bytes of fixed length. -/
def block (count : Nat) : Reader (Vector UInt8 count) := do
  let found ← bytes count
  return Vector.ofFn fun i => found.getD i 0

/-- Reads a field of fixed width (`read_le`). -/
def field (α : Type) [LittleEndian α] : Reader α := do
  return LittleEndian.decode (← bytes (LittleEndian.width α))

/-- None of the five bytes from an offset on ends the variable-length integer. -/
def overlong (form : String) (start : Nat) : Error :=
  .malformed s!"{form} at offset {start} exceeds five bytes"

/-- Reads the groups of a variable-length integer up to the one that ends it, at most `left` more of
them.  `bits` are those of the groups so far, as many as `shift` says, and `finish` makes the number
of the last byte and of all bits; `form` is the name of the number in the message. -/
def groups {α : Type} (form : String) (finish : UInt8 → UInt32 → UInt32 → α) :
    (left : Nat) → (shift bits : UInt32) → Reader α
  | 0, _, _ => do
    throw (overlong form ((← get).position - 5))
  | left + 1, shift, bits => do
    let b ← field UInt8
    let bits := bits ||| (b &&& 0x7F).toUInt32 <<< shift
    let shift := shift + 7
    if Leb128.continues b then
      groups form finish left shift bits
    else
      return finish b shift bits

/-- Reads an unsigned variable-length integer (`read_uleb128`). -/
def uleb128 : Reader UInt32 :=
  groups "uleb128" (fun _ _ bits => bits) 5 0 0

/-- Reads a signed variable-length integer (`read_sleb128`). -/
def sleb128 : Reader Int32 :=
  groups "sleb128" Leb128.signExtended 5 0 0

/-- Reads a string and the zero byte that ends it (`read_mutf8`). -/
def mutf8 : Reader String := do
  let c ← get
  let spelled := c.rest.takeWhile (· != 0)
  if spelled.length < c.remaining then
    match Mutf8.decode spelled with
    | .ok s =>
      advance (spelled.length + 1)
      return s
    | .error cause => throw cause
  else
    throw .outOfBounds

end Cursor

end Dalvik
