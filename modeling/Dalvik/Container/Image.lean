/-
# Whole containers

A container is a header, the id tables and the data section, in this order and without gaps.  The
data section is laid out first, because the records of the tables hold offsets into it; then the
parts are written to an output, and the output is sealed.
-/
import Dalvik.Container.DataSection
import Dalvik.Container.Discovery
import Dalvik.Output

namespace Dalvik

/-- The parts of a container, laid out. -/
structure Image where
  header : Header
  /-- The records of the id tables, from the end of the header on. -/
  ids : List UInt8
  /-- The data section, at the offset that the header says. -/
  data : List UInt8

/-- The header of a container, without digests (`header`). -/
def IdTables.header (t : IdTables) (options : Container.Options) (map dataSize fileSize : UInt32) :
    Header where
  magic := Header.magicOf options.version
  fileSize := fileSize
  headerSize := Header.size.toUInt32
  endianTag := Header.endianMark
  mapOff := map
  stringIdsSize := t.strings.count
  stringIdsOff := t.strings.offset
  typeIdsSize := t.types.count
  typeIdsOff := t.types.offset
  protoIdsSize := t.protos.count
  protoIdsOff := t.protos.offset
  fieldIdsSize := t.fields.count
  fieldIdsOff := t.fields.offset
  methodIdsSize := t.methods.count
  methodIdsOff := t.methods.offset
  classDefsSize := t.classes.count
  classDefsOff := t.classes.offset
  dataSize := dataSize
  dataOff := t.stop

namespace Image

/-- Refuses records that do not fill the tables. -/
def checkIds (tables : IdTables) (ids : List UInt8) : Except Error Unit :=
  let stop := Header.size + ids.length
  if stop == tables.stop.toNat then
    .ok ()
  else
    let expected := s!"0x{Text.hex tables.stop.toNat}"
    .error (.malformed s!"Index sections end at 0x{Text.hex stop}, expected {expected}")

/-- **Layout.**  The container of classes (`layout`). -/
def ofClasses (options : Container.Options) (classes : List ClassDef) : Except Error Image := do
  let c ← Catalog.discover options classes
  let tables ← IdTables.ofCatalog c
  match c.writeSection options tables { base := tables.stop } with
  | .error cause _ => throw cause
  | .ok placed s =>
    let ids ← Part.joined (placed.catalog.recordParts placed.strings placed.directories
      placed.classData)
    checkIds tables ids
    let dataSize ← Bytes.narrow32 s.data.size
    let size := tables.stop.toNat + dataSize.toNat
    if 0x100000000 ≤ size then
      throw (.malformed "Container exceeds u32::MAX bytes")
    return { header := tables.header options placed.map dataSize size.toUInt32, ids,
             data := s.data.toList }

/-- The length of the container. -/
def size (i : Image) : Nat :=
  i.header.fileSize.toNat

/-- Writes the container to an output and seals it with the given digests (`assemble`). -/
def assembleWith (sign : List UInt8 → Vector UInt8 20) (sum : List UInt8 → UInt32) (i : Image)
    (o : Output) : Except Error Output := do
  let o ← o.write Header.size i.ids
  let o ← o.write i.header.dataOff.toNat i.data
  let data ← Header.sealedWith sign sum (← i.header.write o.data)
  return { o with data }

/-- Writes the container to an output and seals it. -/
def assemble (i : Image) (o : Output) : Except Error Output :=
  i.assembleWith Sha1.digest Adler32.checksum o

end Image

namespace Container

/-- The bytes of the container of classes, sealed with the given digests. -/
def writeWith (sign : List UInt8 → Vector UInt8 20) (sum : List UInt8 → UInt32)
    (options : Container.Options) (classes : List ClassDef) : Except Error (List UInt8) := do
  let image ← Image.ofClasses options classes
  let o ← image.assembleWith sign sum (Output.inMemory image.size)
  o.taken none

/-- **The bytes of the container of classes** (`write`), with the digests of the format. -/
def write (options : Container.Options) (classes : List ClassDef) : Except Error (List UInt8) :=
  writeWith Sha1.digest Adler32.checksum options classes

/-- Writes the container of classes to a file (`write_to_file`).  The file is made when the layout
is known, and it is not left if assembling the container fails. -/
def writeFile (options : Container.Options) (system : System) (path : String)
    (classes : List ClassDef) : Disk Unit := do
  let image ← Image.ofClasses options classes
  let o ← Output.create system path image.size
  match image.assemble o with
  | .ok o => o.finalize system none
  | .error cause =>
    o.drop
    throw cause

end Container

end Dalvik
