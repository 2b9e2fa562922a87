/-
# Code items

The code of a method in a container: three register counts, the number of try ranges, the code
units, and, if there are try ranges, the ranges and their handler lists.  Ranges with the same
handlers share a list, and refer to it by its distance from the start of the lists.

The number of registers passed out of a method is the largest that any of its calls passes, counted
from the prototype of the callee where the instruction names it, and from the registers of the
instruction otherwise.
-/
import Dalvik.Class.Basic
import Dalvik.Container.Options
import Dalvik.Container.Stream

namespace Dalvik

/-! ## 1. Register counts -/

namespace Instruction

/-- Calls without a receiver. -/
def isStaticCall (i : Instruction) : Bool :=
  i.opcode == 0x71 || i.opcode == 0x77

/-- Calls, the polymorphic and the custom ones left out. -/
def isPlainCall (i : Instruction) : Bool :=
  0x6E ≤ i.opcode && i.opcode ≤ 0x72 || 0x74 ≤ i.opcode && i.opcode ≤ 0x78

/-- Array constructions, which take registers as a call does and call nothing. -/
def isFilledArray (i : Instruction) : Bool :=
  i.opcode == 0x24 || i.opcode == 0x25

/-- The method that a call names, unless it is a bare index. -/
def callee? (i : Instruction) : Option MethodRef :=
  match i.operand with
  | .reference (.method callee) => if i.isPlainCall then some callee else none
  | _ => none

/-- The number of registers that the instruction passes out of its method (`outgoing_registers`). -/
def outgoing (i : Instruction) : Except Error UInt16 :=
  match i.callee? with
  | some callee => do
    let parameters ← callee.proto.parameterRegisters
    if i.isStaticCall then
      return parameters
    else
      Bytes.sum16 s!"call to {callee.text} passes too many registers" parameters 1
  | none => .ok (if i.isFilledArray then 0 else i.argumentRegisters)

end Instruction

/-- The register counts of a method. -/
structure RegisterCounts where
  /-- All registers. -/
  registers : UInt16
  /-- The registers of the arguments. -/
  ins : UInt16
  /-- The registers passed to calls. -/
  outs : UInt16
  deriving DecidableEq, Repr, Inhabited

/-- **The register counts.**  There are at least as many registers as arguments, and as many as are
passed to a call if those are more than the options allow for (`register_counts`). -/
def Method.registerCounts (options : Container.Options) (m : Method) (b : Body) :
    Except Error RegisterCounts := do
  let ins ← m.insCount
  let outs ← b.instructions.foldlM (fun outs i => return max outs (← i.outgoing)) 0
  let least := max m.registers ins
  let registers := if options.maxOuts < outs then max least outs else least
  return { registers, ins, outs }

/-! ## 2. Handler lists -/

namespace HandlerList

/-- The number of typed handlers, made negative if there is one that catches everything. -/
def signedSize (list : HandlerList) : Except Error Int32 :=
  let size := list.typed.length
  if 0x80000000 ≤ size then
    .error (.malformedTryRange "too many handlers")
  else
    .ok (Int32.ofInt (if list.catchAll.isSome then -size else size))

/-- The bytes of a typed handler. -/
def encodeTyped (ix : Indexer) (handler : String × UInt32) : Part := do
  return Leb128.encodeUnsigned (← ix (.type handler.1)) ++ Leb128.encodeUnsigned handler.2

/-- The bytes of a list. -/
def encode (ix : Indexer) (list : HandlerList) : Part := do
  let size ← list.signedSize
  let typed ← list.typed.mapM (encodeTyped ix)
  return Leb128.encodeSigned size ++ typed.flatten ++
    list.catchAll.toList.flatMap Leb128.encodeUnsigned

/-- The bytes of lists, the first of which begins at `start`, and where the list of each key begins
(`encode_handler_lists`). -/
def encodeAll (ix : Indexer) (start : Nat) :
    List HandlerList → Except Error (List UInt8 × List (List UInt8 × UInt16))
  | [] => .ok ([], [])
  | list :: rest => do
    if 0x10000 ≤ start then
      throw (.malformedTryRange "handler lists exceed 64 KiB")
    let data ← list.encode ix
    let (more, places) ← encodeAll ix (start + data.length) rest
    return (data ++ more, (key list, start.toUInt16) :: places)

end HandlerList

/-! ## 3. Code items -/

namespace ResolvedTry

/-- The bytes of a range, given where its handlers begin. -/
def encode (t : ResolvedTry) (handlers : UInt16) : List UInt8 :=
  LittleEndian.encode t.start ++ LittleEndian.encode t.count ++ LittleEndian.encode handlers

/-- The bytes of a range, given where the list of each key begins. -/
def encodeWith (places : List (List UInt8 × UInt16)) (t : ResolvedTry) : Part :=
  match places.lookup (key t.handlers) with
  | some handlers => .ok (t.encode handlers)
  | none => .error (.malformed s!"Handler list of try at {t.start} was not encoded")

/-- The bytes of ranges and of their handler lists, each list once. -/
def encodeAll (ix : Indexer) (tries : List ResolvedTry) : Part := do
  let lists := Body.distinctLists tries
  let count ← Part.count lists.length
  let (data, places) ← HandlerList.encodeAll ix count.length lists
  let ranges ← tries.mapM (encodeWith places)
  return ranges.flatten ++ count ++ data

end ResolvedTry

/-- The parts of the ranges after `length` code units; they begin at a multiple of four. -/
def triesParts (ix : Indexer) (length : Nat) (tries : List ResolvedTry) : List Part :=
  if tries.isEmpty then
    []
  else
    [.ok (List.replicate (2 * (length % 2)) 0), ResolvedTry.encodeAll ix tries]

/-- The parts of a code item. -/
def codeParts (ix : Indexer) (counts : RegisterCounts) (units : List UInt16)
    (tries : List ResolvedTry) : List Part :=
  [.ok (LittleEndian.encode counts.registers ++ LittleEndian.encode counts.ins ++
      LittleEndian.encode counts.outs),
    (Bytes.narrow16 tries.length).map LittleEndian.encode,
    .ok (LittleEndian.encode (0 : UInt32)),
    (Bytes.narrow32 units.length).map LittleEndian.encode,
    .ok (units.flatMap LittleEndian.encode)] ++
  triesParts ix units.length tries

/-- Appends the code item of a method, and answers its offset (`write_code_item`). -/
def Method.writeCode (ix : Indexer) (options : Container.Options) (m : Method) (b : Body) :
    StreamWriter UInt32 := do
  let counts ← m.registerCounts options b
  let units ← b.encode ix
  let tries ← b.resolveTries
  Stream.item 4 (codeParts ix counts units tries)

end Dalvik
