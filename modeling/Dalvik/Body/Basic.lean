/-
# The code of a method

A body keeps its instructions in slots that are never given up, and the order of the program apart
from them.  A handle names the instruction of a slot for as long as it lives: it holds the number of
the slot and a generation, which goes up each time the instruction of the slot is removed; so a
handle of a removed instruction is told from that of its filler.  Labels and try ranges hold handles
and never offsets, and so follow their instructions.

Offsets are sums of widths, computed when asked for.
-/
import Dalvik.Instruction.Decode

namespace Dalvik

/-! ## 1. Parts of a body -/

/-- The name of a live instruction (`InstructionId`). -/
structure Handle where
  /-- The number of the slot. -/
  index : Nat
  /-- How often the instruction of the slot had been removed. -/
  generation : UInt32 := 0
  deriving DecidableEq, Repr, Inhabited

/-- The name of the filler that takes the slot of a removed instruction. -/
def Handle.next (h : Handle) : Handle :=
  { h with generation := h.generation + 1 }

/-- A place for an instruction. -/
structure Slot where
  generation : UInt32 := 0
  instruction? : Option Instruction := none
  deriving DecidableEq, Repr, Inhabited

/-- The slot with a filler for its instruction. -/
def Slot.retired (s : Slot) : Slot where
  generation := s.generation + 1
  instruction? := some .nop

/-- An instruction under its handle. -/
structure Line where
  handle : Handle
  instruction : Instruction
  deriving DecidableEq, Repr, Inhabited

/-- A handler of a try range; without a type it catches everything. -/
structure CatchHandler where
  type? : Option String
  target : Handle
  deriving DecidableEq, Repr, Inhabited

/-- A guarded range, from its first to its last instruction, and its handlers in the order in
which they are asked. -/
structure TryRange where
  first : Handle
  last : Handle
  handlers : List CatchHandler := []
  deriving DecidableEq, Repr, Inhabited

/-- The code of a method (`MethodBody`). -/
structure Body where
  /-- The places of instructions; a slot keeps its number. -/
  slots : Array Slot := #[]
  /-- The numbers of the slots in program order. -/
  order : Array Nat := #[]
  /-- The labelled instructions. -/
  labels : List (String × Handle) := []
  /-- The try ranges in the order in which they were added. -/
  tries : List TryRange := []
  deriving DecidableEq, Repr, Inhabited

/-- The handles that a try range holds (`handles`). -/
def TryRange.handles (t : TryRange) : List Handle :=
  t.first :: t.last :: t.handlers.map (·.target)

/-! ## 2. Offsets -/

namespace Line

/-- The number of code units of an instruction. -/
def width (l : Line) : Nat :=
  l.instruction.width

/-- The number of code units of instructions. -/
def widthOf (lines : List Line) : Nat :=
  lines.foldr (fun l rest => l.width + rest) 0

/-- The offset of the instruction of a handle. -/
def offset? (h : Handle) : List Line → Option Nat
  | [] => none
  | l :: rest => if l.handle = h then some 0 else (offset? h rest).map (l.width + ·)

/-- The handle of the instruction that begins at an offset. -/
def startingAt? : List Line → Nat → Option Handle
  | [], _ => none
  | l :: _, 0 => some l.handle
  | l :: rest, offset => if l.width ≤ offset then startingAt? rest (offset - l.width) else none

end Line

namespace Body

/-- The instruction of a slot under its current handle. -/
def line? (b : Body) (index : Nat) : Option Line := do
  let slot ← b.slots[index]?
  let i ← slot.instruction?
  return ⟨⟨index, slot.generation⟩, i⟩

/-- The instructions under their handles in program order (`iter`). -/
def lines (b : Body) : List Line :=
  b.order.toList.filterMap b.line?

/-- The instructions in program order. -/
def instructions (b : Body) : List Instruction :=
  b.lines.map (·.instruction)

/-- The number of code units of the body (`code_units`). -/
def codeUnits (b : Body) : Nat :=
  Line.widthOf b.lines

/-- The instruction of a handle (`get`). -/
def get (b : Body) (h : Handle) : Except Error Instruction :=
  match (b.slots[h.index]?.filter (·.generation == h.generation)).bind (·.instruction?) with
  | some i => .ok i
  | none => .error .instructionNotFound

/-- The offset of the instruction of a handle (`offset_of`). -/
def offsetOf (b : Body) (h : Handle) : Except Error Nat := do
  let _ ← b.get h
  match Line.offset? h b.lines with
  | some offset => return offset
  | none => throw .instructionNotFound

/-- The handle of the instruction that begins at an offset (`instruction_at`). -/
def instructionAt? (b : Body) (offset : Nat) : Option Handle :=
  Line.startingAt? b.lines offset

/-- The labelled instruction (`label`). -/
def label? (b : Body) (name : String) : Option Handle :=
  b.labels.lookup name

/-- The offset of a labelled instruction (`label_offset`). -/
def labelOffset (b : Body) (name : String) : Except Error Nat :=
  match b.label? name with
  | some h => b.offsetOf h
  | none => .error .instructionNotFound

/-- The code units of the body (`encode`). -/
def encode (ix : Indexer) (b : Body) : Except Error (List UInt16) :=
  match CodeWriter.emitAll ix b.instructions #[] with
  | .ok _ units => .ok units.toList
  | .error cause _ => .error cause

end Body

end Dalvik
