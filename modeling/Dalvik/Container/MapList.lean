/-
# The map list

A container ends with a table of its sections: for each kind of item how many there are and where
the first one is, in the order of the offsets.  Kinds without items are left out, and the table
lists itself.
-/
import Dalvik.Container.Stream

namespace Dalvik

/-! ## 1. Kinds of items -/

/-- A kind of item of a container. -/
inductive ItemKind where
  | header
  | stringId
  | typeId
  | protoId
  | fieldId
  | methodId
  | classDef
  | callSiteId
  | methodHandle
  | mapList
  | typeList
  | annotationSetRefList
  | annotationSet
  | classData
  | codeItem
  | stringData
  | debugInfo
  | annotationItem
  | encodedArray
  | annotationsDirectory
  | hiddenApiClassData
  deriving DecidableEq, Repr, Inhabited

namespace ItemKind

/-- The number that stands for the kind. -/
def code : ItemKind → UInt16
  | header => 0x0000
  | stringId => 0x0001
  | typeId => 0x0002
  | protoId => 0x0003
  | fieldId => 0x0004
  | methodId => 0x0005
  | classDef => 0x0006
  | callSiteId => 0x0007
  | methodHandle => 0x0008
  | mapList => 0x1000
  | typeList => 0x1001
  | annotationSetRefList => 0x1002
  | annotationSet => 0x1003
  | classData => 0x2000
  | codeItem => 0x2001
  | stringData => 0x2002
  | debugInfo => 0x2003
  | annotationItem => 0x2004
  | encodedArray => 0x2005
  | annotationsDirectory => 0x2006
  | hiddenApiClassData => 0xF000

/-- The name of the kind. -/
def text : ItemKind → String
  | header => "Header"
  | stringId => "StringId"
  | typeId => "TypeId"
  | protoId => "ProtoId"
  | fieldId => "FieldId"
  | methodId => "MethodId"
  | classDef => "ClassDef"
  | callSiteId => "CallSiteId"
  | methodHandle => "MethodHandle"
  | mapList => "MapList"
  | typeList => "TypeList"
  | annotationSetRefList => "AnnotationSetRefList"
  | annotationSet => "AnnotationSet"
  | classData => "ClassData"
  | codeItem => "Code"
  | stringData => "StringData"
  | debugInfo => "DebugInfo"
  | annotationItem => "Annotation"
  | encodedArray => "EncodedArray"
  | annotationsDirectory => "AnnotationsDirectory"
  | hiddenApiClassData => "HiddenApiClassData"

/-- Every kind. -/
def all : List ItemKind :=
  [header, stringId, typeId, protoId, fieldId, methodId, classDef, callSiteId, methodHandle,
    mapList, typeList, annotationSetRefList, annotationSet, classData, codeItem, stringData,
    debugInfo, annotationItem, encodedArray, annotationsDirectory, hiddenApiClassData]

/-- The kind that a number stands for. -/
def ofCode? (number : Nat) : Option ItemKind :=
  all.find? fun kind => kind.code.toNat == number

end ItemKind

/-! ## 2. Entries -/

/-- An entry of the map list (`MapItem`). -/
structure MapEntry where
  kind : ItemKind
  /-- The number of items. -/
  count : UInt32
  /-- Where the first item is. -/
  offset : UInt32
  deriving DecidableEq, Repr, Inhabited

/-- Entries are in the order of their offsets; at one offset, of their kinds. -/
def MapEntry.le (a b : MapEntry) : Bool :=
  a.offset < b.offset || a.offset == b.offset && a.kind.code ≤ b.kind.code

/-- The bytes of an entry. -/
def MapEntry.encode (e : MapEntry) : List UInt8 :=
  LittleEndian.encode e.kind.code ++ LittleEndian.encode (0 : UInt16) ++
    LittleEndian.encode e.count ++ LittleEndian.encode e.offset

/-! ## 3. The list -/

/-- The entries found so far, in the order in which they were found. -/
structure MapList where
  found : List MapEntry := []
  deriving DecidableEq, Repr, Inhabited

namespace MapList

/-- Adds an entry, unless it stands for no item (`add`). -/
def add (m : MapList) (kind : ItemKind) (count : Nat) (offset : UInt32) : Except Error MapList :=
  if count == 0 then
    .ok m
  else do
    return { found := m.found ++ [{ kind, count := ← Bytes.narrow32 count, offset }] }

/-- The entries in order. -/
def entries (m : MapList) : List MapEntry :=
  m.found.mergeSort MapEntry.le

/-- The parts of the table. -/
def parts (m : MapList) : List Part :=
  (Bytes.narrow32 m.entries.length).map LittleEndian.encode ::
    m.entries.map fun e => .ok e.encode

/-- Appends the table with an entry for itself, and answers its offset (`write`). -/
def write (m : MapList) : StreamWriter UInt32 := do
  Stream.align 4
  let offset ← Stream.position
  let m ← m.add .mapList 1 offset
  Stream.parts m.parts
  return offset

end MapList

end Dalvik
