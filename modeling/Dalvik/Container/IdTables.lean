/-
# The id tables

After the header come six tables of records of fixed size: strings, types, prototypes, fields,
methods and class definitions.  Their places follow from the sizes of the pools alone, and so are
known before anything is written; the records are written last, when all offsets are known.
-/
import Dalvik.Container.AnnotationItems
import Dalvik.Container.ClassItems
import Dalvik.Container.MapList

namespace Dalvik

/-! ## 1. Places -/

/-- Where a table is, and how many records it has; an empty table has the offset zero. -/
structure Table where
  count : UInt32 := 0
  offset : UInt32 := 0
  deriving DecidableEq, Repr, Inhabited

/-- A table at an offset, and the offset after it. -/
def Table.place (next : UInt32) (count recordSize : Nat) : Except Error (Table × UInt32) := do
  let count ← Bytes.narrow32 count
  if count == 0 then
    return ({}, next)
  let stop := next.toNat + count.toNat * recordSize
  if stop < 0x100000000 then
    return ({ count, offset := next }, stop.toUInt32)
  else
    throw (.malformed "Index sections exceed u32::MAX bytes")

/-- Where the id tables are (`IndexLayout`). -/
structure IdTables where
  strings : Table
  types : Table
  protos : Table
  fields : Table
  methods : Table
  classes : Table
  /-- The offset after the last table. -/
  stop : UInt32
  deriving DecidableEq, Repr, Inhabited

namespace IdTables

/-- The tables of a catalog, one after the other from the end of the header on. -/
def ofCatalog (c : Catalog) : Except Error IdTables := do
  let (strings, next) ← Table.place Header.size.toUInt32 c.strings.items.length 4
  let (types, next) ← Table.place next c.types.items.length 4
  let (protos, next) ← Table.place next c.protos.items.length 12
  let (fields, next) ← Table.place next c.fields.items.length 8
  let (methods, next) ← Table.place next c.methods.items.length 8
  let (classes, next) ← Table.place next c.classes.length ClassDef.recordSize
  return { strings, types, protos, fields, methods, classes, stop := next }

/-- The entries of the map list for the header and the tables (`add_to_map`). -/
def mapEntries (t : IdTables) : List (ItemKind × Nat × UInt32) :=
  (.header, 1, 0) ::
    [(ItemKind.stringId, t.strings), (.typeId, t.types), (.protoId, t.protos),
      (.fieldId, t.fields), (.methodId, t.methods), (.classDef, t.classes)].map
      fun (kind, table) => (kind, table.count.toNat, table.offset)

end IdTables

/-! ## 2. Records -/

/-- A pool index for a record field of sixteen bits (`narrow`). -/
def narrowIndex (pool : String) (index : UInt32) : Except Error UInt16 :=
  if index < 0x10000 then .ok index.toUInt16
  else .error (.malformed s!"{pool} index {index} does not fit 16 bits")

namespace Catalog

/-- A string index. -/
def stringWord (c : Catalog) (value : String) : Part :=
  (c.indexer (.string value)).map LittleEndian.encode

/-- A type index. -/
def typeWord (c : Catalog) (descriptor : String) : Part :=
  (c.indexer (.type descriptor)).map LittleEndian.encode

/-- A type index in sixteen bits. -/
def typeHalf (c : Catalog) (descriptor : String) : Part := do
  return LittleEndian.encode (← narrowIndex "type" (← c.indexer (.type descriptor)))

/-- A prototype index in sixteen bits. -/
def protoHalf (c : Catalog) (p : Proto) : Part := do
  return LittleEndian.encode (← narrowIndex "proto" (← c.indexer (.proto p)))

/-- The offset of a type list; an empty one has none. -/
def typeListOffset (c : Catalog) (descriptors : List String) : Except Error UInt32 :=
  if descriptors.isEmpty then .ok 0 else c.typeLists.offsetOf descriptors

/-- The offset of an array of initial values; an empty one has none. -/
def encodedArrayOffset (c : Catalog) (values : List EncodedValue) : Except Error UInt32 :=
  if values.isEmpty then .ok 0 else c.encodedArrays.offsetOf values

/-- The record of a prototype: its short form, its return type and its parameters. -/
def protoParts (c : Catalog) (p : Proto) : List Part :=
  [c.stringWord p.shorty, c.typeWord p.returnType, wordPart (c.typeListOffset p.parameters)]

/-- The record of a field: its class, its type and its name. -/
def fieldParts (c : Catalog) (f : FieldRef) : List Part :=
  [c.typeHalf f.owner, c.typeHalf f.type, c.stringWord f.name]

/-- The record of a method: its class, its prototype and its name. -/
def methodParts (c : Catalog) (m : MethodRef) : List Part :=
  [c.typeHalf m.owner, c.protoHalf m.proto, c.stringWord m.name]

/-- The definition of a class whose directory and class data are at the given offsets. -/
def classPart (c : Catalog) (d : ClassDef) (annotations classData : UInt32) : Part := do
  let interfaces ← c.typeListOffset d.interfaces
  let staticValues ← c.encodedArrayOffset d.staticValues
  let offsets : ClassDef.ItemOffsets := { interfaces, annotations, classData, staticValues }
  (Part.joined (d.recordParts c.indexer offsets)).mapError (Error.inside d.descriptor)

/-- The records of all tables, given the offsets of the strings, and of the directory and the class
data of each class (`write_index`). -/
def recordParts (c : Catalog) (strings directories classData : List UInt32) : List Part :=
  strings.map (fun offset => .ok (LittleEndian.encode offset)) ++
    c.types.items.map c.stringWord ++ c.protos.items.flatMap c.protoParts ++
    c.fields.items.flatMap c.fieldParts ++ c.methods.items.flatMap c.methodParts ++
    (c.classes.zip (directories.zip classData)).map fun (d, annotations, data) =>
      c.classPart d annotations data

end Catalog

end Dalvik
