/-
# Class data and class definitions

The class data item lists the members of a class in four groups: static fields, instance fields,
direct methods and virtual methods, each in the order of the pool.  A member is given by the
difference of its index to that of the member before it, its flags, and, for a method, the offset of
its code.  A class without members has no such item.

The class definition is a record of fixed size: what the class is, and where its items are.
-/
import Dalvik.Class.Basic
import Dalvik.Container.Stream
import Dalvik.Header
import Dalvik.Reference.Indexer

namespace Dalvik

/-! ## 1. Members -/

/-- A member in a class data item. -/
structure MemberEntry where
  index : UInt32
  /-- The numbers after the index: the flags and, for a method, the offset of its code. -/
  numbers : List UInt32
  deriving DecidableEq, Repr, Inhabited

namespace MemberEntry

/-- Members are in the order of their indices; at one index, of their numbers. -/
def le (a b : MemberEntry) : Bool :=
  (compare (a.index :: a.numbers) (b.index :: b.numbers)).isLE

/-- The bytes of members after one with the given index. -/
def encodeFrom (previous : UInt32) : List MemberEntry → List UInt8
  | [] => []
  | m :: rest =>
    Leb128.encodeUnsigned (m.index - previous) ++ m.numbers.flatMap Leb128.encodeUnsigned ++
      encodeFrom m.index rest

/-- The bytes of a group. -/
def encodeGroup (group : List MemberEntry) : List UInt8 :=
  encodeFrom 0 group

end MemberEntry

namespace ClassDef

/-! ## 2. Class data -/

/-- The offsets of code that has been written, the latest first. -/
abbrev CodeOffsets := List (MethodRef × UInt32)

/-- Fields of the class as members. -/
def fieldEntries (ix : Indexer) (c : ClassDef) : Except Error (List (Bool × MemberEntry)) :=
  c.fields.mapM fun f => do
    return (f.isStatic, { index := ← ix (.field (c.fieldRef f)), numbers := [f.flags.bits] })

/-- Methods of the class as members; one without code has the offset zero. -/
def methodEntries (ix : Indexer) (code : CodeOffsets) (c : ClassDef) :
    Except Error (List (Bool × MemberEntry)) :=
  c.methods.mapM fun m => do
    let r := c.methodRef m
    let offset := (code.lookup r).getD 0
    return (m.isDirect, { index := ← ix (.method r), numbers := [m.flags.bits, offset] })

/-- The members of one of two groups, in order. -/
def group (first : Bool) (members : List (Bool × MemberEntry)) : List MemberEntry :=
  ((members.filter fun m => m.1 == first).map (·.2)).mergeSort MemberEntry.le

/-- The four groups of members. -/
def memberGroups (ix : Indexer) (code : CodeOffsets) (c : ClassDef) :
    Except Error (List (List MemberEntry)) := do
  let fields ← c.fieldEntries ix
  let methods ← c.methodEntries ix code
  return [group true fields, group false fields, group true methods, group false methods]

/-- Appends the class data of a class, and answers its offset, which is zero if there is none
(`write_class_data`). -/
def writeData (ix : Indexer) (code : CodeOffsets) (c : ClassDef) : StreamWriter UInt32 := do
  if !c.hasMembers then
    return 0
  let groups ← c.memberGroups ix code
  let counts := groups.map fun g => Part.count g.length
  Stream.item 1 (counts ++ groups.map fun g => .ok (MemberEntry.encodeGroup g))

/-! ## 3. Class definitions -/

/-- Where the items of a class are; zero for one that there is not (`ClassOffsets`). -/
structure ItemOffsets where
  interfaces : UInt32 := 0
  annotations : UInt32 := 0
  classData : UInt32 := 0
  staticValues : UInt32 := 0
  deriving DecidableEq, Repr, Inhabited

/-- The length of a class definition. -/
def recordSize : Nat := 0x20

/-- An index that may be missing. -/
def indexOrNone (ix : Indexer) (r? : Option Reference) : Except Error UInt32 :=
  match r? with
  | some r => ix r
  | none => .ok Header.noIndex

/-- The parts of a class definition (`write_class_def`). -/
def recordParts (ix : Indexer) (c : ClassDef) (offsets : ItemOffsets) : List Part :=
  let words : List (Except Error UInt32) :=
    [ix (.type c.descriptor), .ok c.flags.bits, indexOrNone ix (c.superclass?.map .type),
      .ok offsets.interfaces, indexOrNone ix (c.sourceFile?.map .string), .ok offsets.annotations,
      .ok offsets.classData, .ok offsets.staticValues]
  words.map fun word => word.map LittleEndian.encode

end ClassDef

end Dalvik
