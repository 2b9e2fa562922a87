/-
# Editing the code of a method

An edit changes a body in place and either succeeds or fails on the way.  No edit moves code: an
instruction is removed by putting instructions that do nothing in its place, of the same width
together, and an operand is replaced only by one of the same width.  So every offset that was right
before an edit is right after it.

The edits are steps over a body as their state, which a step that fails may have changed already.
The functions of the last section give them as functions of the body.
-/
import Dalvik.Body.Basic

namespace Dalvik

/-! ## 1. Adding instructions -/

namespace Body

/-- Appends an instruction; also answers its handle (`push`). -/
def push (b : Body) (i : Instruction) : Body × Handle :=
  let index := b.slots.size
  ({ b with slots := b.slots.push { instruction? := some i }, order := b.order.push index },
    { index })

/-- A body of instructions in program order (`from_instructions`). -/
def ofInstructions (code : List Instruction) : Body :=
  code.foldl (fun b i => (b.push i).1) {}

/-- A body of the instructions that code units spell (`from_code_units`). -/
def ofUnits (units : List UInt16) : Except Error Body :=
  (Instruction.decodeStream units).map ofInstructions

/-- Another handle in the place of one. -/
def moved (old new h : Handle) : Handle :=
  if h = old then new else h

/-- A try range whose bounds and handlers follow a removed instruction: the start and the handlers
to the first filler, the end to the last. -/
def movedTry (old first last : Handle) (t : TryRange) : TryRange where
  first := moved old first t.first
  last := moved old last t.last
  handlers := t.handlers.map fun c => { c with target := moved old first c.target }

end Body

/-- A step that may change a body; what it changed before it fails stays changed. -/
abbrev Editor := EStateM Error Body

namespace Editor

/-- Asks the body. -/
def ask {α : Type} (question : Body → Except Error α) : Editor α := do
  match question (← get) with
  | .ok answer => return answer
  | .error cause => throw cause

/-- Appends an instruction. -/
def push (i : Instruction) : Editor Handle :=
  modifyGet fun b =>
    let (b, h) := b.push i
    (h, b)

/-! ## 2. Replacing an operand -/

/-- Replaces the operand of an instruction by one that fits it and leaves its width
(`replace_operand`). -/
def replaceOperand (h : Handle) (operand : Operand) : Editor Unit := do
  let i ← ask (·.get h)
  ask fun _ => i.checkOperand operand
  let replaced := { i with operand }
  if replaced.width != i.width then
    throw (.invalidOperand
      s!"{i.mnemonic} would change width from {i.width} to {replaced.width} code units")
  modify fun b =>
    { b with slots := b.slots.modify h.index fun s => { s with instruction? := some replaced } }

/-! ## 3. Removing an instruction -/

/-- A new slot for a filler, at a place of the program. -/
def insertFiller (place : Nat) : Editor Handle :=
  modifyGet fun b =>
    let index := b.slots.size
    ({ index }, { b with
      slots := b.slots.push { instruction? := some .nop }
      order := b.order.insertIdxIfInBounds place index })

/-- Fillers at consecutive places. -/
def insertFillers : (place count : Nat) → Editor (List Handle)
  | _, 0 => return []
  | place, count + 1 => do
    let filler ← insertFiller place
    return filler :: (← insertFillers (place + 1) count)

/-- **Removing.**  Puts fillers in the place of an instruction, and answers their handles
(`remove`). -/
def remove (h : Handle) : Editor (List Handle) := do
  let width := (← ask (·.get h)).width
  let some place := (← get).order.idxOf? h.index | throw .instructionNotFound
  modify fun b => { b with slots := b.slots.modify h.index Slot.retired }
  let first := h.next
  let others ← insertFillers (place + 1) (width - 1)
  let last := others.getLastD first
  modify fun b => { b with
    labels := b.labels.map fun (name, target) => (name, Body.moved h first target)
    tries := b.tries.map (Body.movedTry h first last) }
  return first :: others

/-! ## 4. Labels and branches -/

/-- Labels an instruction (`add_label`). -/
def addLabel (name : String) (h : Handle) : Editor Unit := do
  let _ ← ask (·.get h)
  if ((← get).label? name).isSome then
    throw (.duplicateLabel name)
  modify fun b => { b with labels := b.labels ++ [(name, h)] }

/-- Points a branch at a label (`retarget_branch`). -/
def retargetBranch (h : Handle) (label : String) : Editor Unit := do
  let i ← ask (·.get h)
  let .branch _ := i.operand | throw (.invalidOperand s!"{i.mnemonic} has no branch target")
  let target ← ask (·.labelOffset label)
  let source ← ask (·.offsetOf h)
  let delta := (target : Int) - source
  if !fitsSigned 32 delta then
    throw (.invalidOperand s!"branch to {label} is out of range")
  replaceOperand h (.branch (Int32.ofInt delta))

/-- The body that a step leaves if it succeeds, and its answer. -/
def outcome {α : Type} (step : Editor α) (b : Body) : Except Error (Body × α) :=
  match step b with
  | .ok answer b => .ok (b, answer)
  | .error cause _ => .error cause

end Editor

/-! ## 5. Edits as functions -/

namespace Body

/-- Replaces the operand of an instruction. -/
def replaceOperand (b : Body) (h : Handle) (operand : Operand) : Except Error Body :=
  ((Editor.replaceOperand h operand).outcome b).map (·.1)

/-- Puts fillers in the place of an instruction, and answers their handles. -/
def remove (b : Body) (h : Handle) : Except Error (Body × List Handle) :=
  (Editor.remove h).outcome b

/-- Labels an instruction. -/
def addLabel (b : Body) (name : String) (h : Handle) : Except Error Body :=
  ((Editor.addLabel name h).outcome b).map (·.1)

/-- Points a branch at a label. -/
def retargetBranch (b : Body) (h : Handle) (label : String) : Except Error Body :=
  ((Editor.retargetBranch h label).outcome b).map (·.1)

end Body

end Dalvik
