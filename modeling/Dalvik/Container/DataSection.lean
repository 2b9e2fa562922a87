/-
# The data section

Everything that has an offset, in ten sections, each of which begins at a multiple of four: strings,
type lists, arrays of initial values, annotations, their sets, lists of sets, directories, code,
class data, and the map list.  An item refers only to items of sections before its own.
-/
import Dalvik.Container.CodeItem
import Dalvik.Container.IdTables
import Dalvik.Text.Mutf8

namespace Dalvik

namespace Catalog

/-! ## 1. Strings, type lists and arrays -/

/-- A string: its length in UTF-16 code units, its bytes, and a zero. -/
def stringParts (value : String) : List Part :=
  [Part.count (Text.unitLength value), .ok (Mutf8.encode value ++ [0])]

/-- Appends the strings, and answers their offsets. -/
def writeStrings (c : Catalog) : StreamWriter (List UInt32) :=
  Stream.items 1 (c.strings.items.map stringParts)

/-- A type list: the number of types, and their indices. -/
def typeListParts (c : Catalog) (descriptors : List String) : List Part :=
  wordPart (Bytes.narrow32 descriptors.length) :: descriptors.map c.typeHalf

/-- Appends the type lists (`write_type_lists`). -/
def writeTypeLists (c : Catalog) : StreamWriter Catalog := do
  let offsets ← Stream.items 4 (c.typeLists.items.map c.typeListParts)
  return { c with typeLists := c.typeLists.setOffsets offsets }

/-- Appends the arrays of initial values. -/
def writeArrays (c : Catalog) : StreamWriter Catalog := do
  let offsets ← Stream.items 1 (c.encodedArrays.items.map (EncodedValue.arrayParts c.indexer))
  return { c with encodedArrays := c.encodedArrays.setOffsets offsets }

/-! ## 2. Code and class data -/

/-- The methods that have code, with their names and their code, in the order of writing. -/
def methodsWithCode (c : Catalog) : List (MethodRef × Method × Body) :=
  c.classes.flatMap fun d => d.methods.flatMap fun m =>
    m.body?.toList.map fun b => (d.methodRef m, m, b)

/-- Appends the code of methods; `before` are the offsets of earlier ones, the latest first. -/
def writeCodeOf (c : Catalog) (options : Container.Options) (before : ClassDef.CodeOffsets) :
    List (MethodRef × Method × Body) → StreamWriter ClassDef.CodeOffsets
  | [] => return before
  | (r, m, b) :: rest => do
    let offset ← Stream.inside r.text (m.writeCode c.indexer options b)
    writeCodeOf c options ((r, offset) :: before) rest

/-- Appends all code, and answers the offsets, the latest first. -/
def writeCode (c : Catalog) (options : Container.Options) : StreamWriter ClassDef.CodeOffsets :=
  c.writeCodeOf options [] c.methodsWithCode

/-- Appends the class data of all classes, and answers their offsets. -/
def writeClassData (c : Catalog) (code : ClassDef.CodeOffsets) : StreamWriter (List UInt32) :=
  c.classes.mapM fun d => Stream.inside d.descriptor (d.writeData c.indexer code)

/-! ## 3. The section as a whole -/

/-- Where the items of the data section are. -/
structure Placed where
  /-- The catalog, with the offsets of its items. -/
  catalog : Catalog
  /-- The offsets of the strings in the order of the pool. -/
  strings : List UInt32
  /-- The offsets of the directories in the order of the classes. -/
  directories : List UInt32
  /-- The offsets of the class data in the order of the classes. -/
  classData : List UInt32
  /-- The offset of the map list. -/
  map : UInt32
  deriving Inhabited

/-- An entry of the map list for items of a catalog. -/
def entryOf {α : Type} (kind : ItemKind) (t : SharedItems α) : ItemKind × Nat × UInt32 :=
  (kind, t.entries.length, t.firstOffset)

/-- The offsets of what is there. -/
def present (offsets : List UInt32) : List UInt32 :=
  offsets.filter (· != 0)

/-- The map list of entries, given with their counts and the offsets of the first items. -/
def mapOf (entries : List (ItemKind × Nat × UInt32)) : Except Error MapList :=
  entries.foldlM (fun (m : MapList) (kind, count, first) => m.add kind count first) {}

/-- **The data section.**  Appends all items and the map list, and answers where they are
(`write_data`). -/
def writeSection (c : Catalog) (options : Container.Options) (tables : IdTables) :
    StreamWriter Placed := do
  Stream.align 4
  let strings ← c.writeStrings
  Stream.align 4
  let c ← c.writeTypeLists
  Stream.align 4
  let c ← c.writeArrays
  Stream.align 4
  let c ← c.writeAnnotations
  Stream.align 4
  let c ← c.writeSets
  Stream.align 4
  let c ← c.writeSetLists
  Stream.align 4
  let directories ← c.writeDirectories
  Stream.align 4
  let code ← c.writeCode options
  Stream.align 4
  let classData ← c.writeClassData code
  let map ← mapOf (tables.mapEntries ++
    [(.stringData, strings.length, strings.headD 0),
      entryOf .typeList c.typeLists,
      entryOf .encodedArray c.encodedArrays,
      entryOf .annotationItem c.annotations,
      entryOf .annotationSet c.annotationSets,
      entryOf .annotationSetRefList c.setLists,
      (.annotationsDirectory, directories.written,
        (present directories.offsets).min?.getD 0),
      (.codeItem, code.length, (code.getLast?.map (·.2)).getD 0),
      (.classData, (present classData).length, (present classData).headD 0)])
  let map ← map.write
  return { catalog := c, strings, directories := directories.offsets, classData, map }

end Catalog

end Dalvik
