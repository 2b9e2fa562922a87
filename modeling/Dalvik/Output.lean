/-
# Where a container goes

An output has a fixed size, starts as zeros, and is written at offsets, in memory or in a file that
is mapped.  It ends in one of three ways: it is dropped, finalized, or turned into bytes.

The owner of a file is whoever has its path: an output that is dropped removes the file at its path,
unless the output has been finalized.  Both other ends take the path out of the output before
anything else, so what they drop in the end has none.

The file system is a state, and what it answers to a call is a parameter (`System`).
-/
import Dalvik.Bytes.Align
import Dalvik.Error

namespace Dalvik

/-! ## 1. Files -/

/-- The contents of the files, by their paths. -/
abbrev Files := String → Option (List UInt8)

namespace Files

/-- The files with the one at a path replaced, or removed. -/
def set (path : String) (bytes? : Option (List UInt8)) (files : Files) : Files :=
  fun p => if p = path then bytes? else files p

/-- The contents of the file at a path change, if it is there. -/
def update (path : String) (f : List UInt8 → List UInt8) (files : Files) : Files :=
  files.set path ((files path).map f)

@[simp] theorem set_same (path : String) (bytes? : Option (List UInt8)) (files : Files) :
    files.set path bytes? path = bytes? :=
  if_pos rfl

theorem set_of_ne {path p : String} (h : p ≠ path) (bytes? : Option (List UInt8)) (files : Files) :
    files.set path bytes? p = files p :=
  if_neg h

@[simp] theorem set_set (path : String) (bytes? bytes'? : Option (List UInt8)) (files : Files) :
    (files.set path bytes?).set path bytes'? = files.set path bytes'? := by
  funext p
  by_cases h : p = path
  · rw [h, set_same, set_same]
  · simp only [set_of_ne h]

@[simp] theorem update_same (path : String) (f : List UInt8 → List UInt8) (files : Files) :
    files.update path f path = (files path).map f :=
  set_same ..

@[simp] theorem update_set (path : String) (bytes? : Option (List UInt8))
    (f : List UInt8 → List UInt8) (files : Files) :
    (files.set path bytes?).update path f = files.set path (bytes?.map f) := by
  rw [update, set_same, set_set]

end Files

/-- A step that changes files. -/
abbrev Disk := EStateM Error Files

/-- What the system answers to the calls about the file of an output: the cause, where it
refuses. -/
structure System where
  opened : Option String := none
  sized : Option String := none
  mapped : Option String := none
  flushed : Option String := none
  truncated : Option String := none
  deriving DecidableEq, Repr, Inhabited

/-- A call of the system, with the error that its cause stands for. -/
def System.call (answer : Option String) (error : String → Error) : Except Error Unit :=
  match answer with
  | none => .ok ()
  | some cause => .error (error cause)

/-! ## 2. Outputs -/

/-- Bytes under construction. -/
structure Output where
  data : List UInt8
  /-- The file that the bytes are in, if they are not in memory. -/
  path? : Option String := none
  /-- Whether a file at the path is to be kept when the output is dropped. -/
  finalized : Bool := false
  deriving DecidableEq, Repr, Inhabited

/-- A step that changes an output. -/
abbrev OutputWriter := EStateM Error Output

namespace Output

def zeros (size : Nat) : List UInt8 :=
  List.replicate size 0

/-- An output in memory (`create_in_memory`). -/
def inMemory (size : Nat) : Output where
  data := zeros size

/-- An output in a new file, or in one whose contents are lost (`create`). -/
def create (system : System) (path : String) (size : Nat) : Disk Output := do
  System.call system.opened fun cause => .outputBuffer s!"Failed to create {path}: {cause}"
  modify (Files.set path (some []))
  System.call system.sized fun cause => .outputBuffer s!"Failed to set file size: {cause}"
  modify (Files.set path (some (zeros size)))
  System.call system.mapped fun cause => .outputBuffer s!"Failed to map {path}: {cause}"
  return { data := zeros size, path? := some path }

/-- The number of bytes. -/
def size (o : Output) : Nat :=
  o.data.length

/-- The bytes do not fit into the output at the offset. -/
def exceeded (o : Output) (offset : Nat) (data : List UInt8) : Error :=
  let place := s!"0x{Text.hex offset}"
  .outputBuffer
    s!"Write of {data.length} bytes at {place} exceeds buffer size 0x{Text.hex o.size}"

/-- Replaces the bytes at an offset (`write_at`). -/
def writeAt (offset : Nat) (data : List UInt8) : OutputWriter Unit := do
  let o ← get
  if offset + data.length ≤ o.size then
    set { o with data := o.data.take offset ++ data ++ o.data.drop (offset + data.length) }
  else
    throw (o.exceeded offset data)

/-- The output with the bytes at an offset replaced. -/
def write (o : Output) (offset : Nat) (data : List UInt8) : Except Error Output :=
  match writeAt offset data o with
  | .ok _ o => .ok o
  | .error cause _ => .error cause

section Write

variable {o : Output} {offset : Nat} {data : List UInt8}

theorem writeAt_eq (o : Output) (offset : Nat) (data : List UInt8) : writeAt offset data o =
    if offset + data.length ≤ o.size then
      .ok () { o with data := o.data.take offset ++ data ++ o.data.drop (offset + data.length) }
    else .error (o.exceeded offset data) o := by
  have hrun : writeAt offset data o = (if offset + data.length ≤ o.size then
      set { o with data := o.data.take offset ++ data ++ o.data.drop (offset + data.length) }
    else throw (o.exceeded offset data) : OutputWriter Unit) o := rfl
  rw [hrun]
  split <;> rfl

theorem writeAt_of_le (h : offset + data.length ≤ o.size) : writeAt offset data o =
    .ok () { o with data := o.data.take offset ++ data ++ o.data.drop (offset + data.length) } :=
  (writeAt_eq o offset data).trans (if_pos h)

theorem writeAt_of_lt (h : o.size < offset + data.length) :
    writeAt offset data o = .error (o.exceeded offset data) o :=
  (writeAt_eq o offset data).trans (if_neg (Nat.not_le.mpr h))

theorem write_eq (o : Output) (offset : Nat) (data : List UInt8) : o.write offset data =
    if offset + data.length ≤ o.size then
      .ok { o with data := o.data.take offset ++ data ++ o.data.drop (offset + data.length) }
    else .error (o.exceeded offset data) := by
  split
  case isTrue h => rw [write, writeAt_of_le h]
  case isFalse h => rw [write, writeAt_of_lt (Nat.not_le.mp h)]

end Write

/-- Changes the bytes in place, each by its index (`as_mut_slice`). -/
def edit (f : Nat → UInt8 → UInt8) : OutputWriter Unit :=
  modify fun o => { o with data := o.data.mapIdx f }

/-- Brings the bytes to the file, if there is one (`flush`). -/
def flush (system : System) : OutputWriter Unit := do
  if (← get).path?.isSome then
    System.call system.flushed fun cause => .outputBuffer s!"Failed to flush mapping: {cause}"

/-! ## 3. Ends -/

/-- Ends the mapping of a file: the file has the bytes of the output, if it is still there. -/
def unmap (o : Output) : Disk Unit := do
  if let some path := o.path? then
    modify (Files.update path fun _ => o.data)

/-- **Ends without a result.**  The file at the path is removed, unless the output is finalized
(`drop`). -/
def drop (o : Output) : Disk Unit := do
  if let some path := o.path? then
    unless o.finalized do
      modify (Files.set path none)
  o.unmap

/-- The output without its bytes and its path, which have been taken out. -/
def emptied (o : Output) : Output :=
  { o with data := [], path? := none }

/-- Brings the file at a path to a size. -/
def truncate (system : System) (path : String) (size : Nat) : Disk Unit := do
  System.call system.truncated fun cause =>
    .finalization s!"Failed to truncate {path} to {size} bytes: {cause}"
  modify (Files.update path (Bytes.resized · size))

/-- **Ends with the file**, at a size that may differ from that of the output (`finalize`). -/
def finalize (system : System) (o : Output) (size? : Option Nat) : Disk Unit := do
  match o.path? with
  | some path =>
    let rest := { o.emptied with finalized := true }
    o.unmap
    try
      System.call system.flushed fun cause => .finalization s!"Failed to flush mapping: {cause}"
      if let some size := size? then
        truncate system path size
    catch cause =>
      rest.drop
      throw cause
    rest.drop
  | none =>
    o.emptied.drop
    throw (.finalization "in-memory output has no file, use into_vec()")

/-- The bytes, up to a size. -/
def taken (o : Output) (size? : Option Nat) : Except Error (List UInt8) :=
  match size? with
  | none => .ok o.data
  | some size =>
    if size ≤ o.size then
      .ok (o.data.take size)
    else
      .error (.finalization s!"Requested size {size} exceeds buffer size {o.size}")

/-- **Ends with the bytes**, up to a size (`into_vec`). -/
def intoBytes (o : Output) (size? : Option Nat) : Disk (List UInt8) := do
  o.unmap
  match o.taken size? with
  | .ok bytes =>
    drop { o.emptied with finalized := true }
    return bytes
  | .error cause =>
    o.emptied.drop
    throw cause

end Output

end Dalvik
