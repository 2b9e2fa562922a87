/-
# The header of a container

The first 0x70 bytes: magic, two digests, and twenty words that say where everything is.  Reading
checks only what fixes the form (magic, header size, byte order); the words are taken as they are.

`storeDigests` seals a container: the signature covers everything after itself, and the checksum
covers everything after itself, the signature included, so the signature comes first.  The two
digests are parameters; those of a container are SHA-1 and Adler-32.
-/
import Dalvik.Bytes.Cursor
import Dalvik.Digest.Adler32
import Dalvik.Digest.Sha1
import Dalvik.Text.Quoted

namespace Dalvik

/-! ## 1. Fields -/

/-- The fields of a header, in their order in the container (`DexHeader`). -/
structure Header where
  /-- The letters `dex`, a newline, three version digits and a zero. -/
  magic : Vector UInt8 8 := Vector.replicate 8 0
  /-- The checksum of all that follows it. -/
  checksum : UInt32 := 0
  /-- The signature of all that follows it. -/
  signature : Vector UInt8 20 := Vector.replicate 20 0
  /-- The length of the container. -/
  fileSize : UInt32 := 0
  /-- The length of the header. -/
  headerSize : UInt32 := 0
  /-- The byte order mark. -/
  endianTag : UInt32 := 0
  linkSize : UInt32 := 0
  linkOff : UInt32 := 0
  /-- The offset of the map list. -/
  mapOff : UInt32 := 0
  stringIdsSize : UInt32 := 0
  stringIdsOff : UInt32 := 0
  typeIdsSize : UInt32 := 0
  typeIdsOff : UInt32 := 0
  protoIdsSize : UInt32 := 0
  protoIdsOff : UInt32 := 0
  fieldIdsSize : UInt32 := 0
  fieldIdsOff : UInt32 := 0
  methodIdsSize : UInt32 := 0
  methodIdsOff : UInt32 := 0
  classDefsSize : UInt32 := 0
  classDefsOff : UInt32 := 0
  dataSize : UInt32 := 0
  /-- The offset of the data section, which ends the container. -/
  dataOff : UInt32 := 0
  deriving DecidableEq, Repr

namespace Header

/-- The length of a header. -/
def size : Nat := 0x70

/-- The byte order mark of a little-endian container. -/
def endianMark : UInt32 := 0x12345678

/-- The index that stands for no entry. -/
def noIndex : UInt32 := 0xFFFFFFFF

/-- Where the checksum is. -/
def checksumAt : Nat := 8

/-- Where the signature is; the checksum covers the bytes from here on. -/
def signatureAt : Nat := 12

/-- Where the words are; the signature covers the bytes from here on. -/
def wordsAt : Nat := 32

/-! ## 2. The format version -/

/-- The magic of a format version, of which at most three digits are written
(`magic_for_version`). -/
def magicOf (version : UInt16) : Vector UInt8 8 :=
  let v := min version.toNat 999
  let digit (n : Nat) : UInt8 := (0x30 + n % 10).toUInt8
  #v[0x64, 0x65, 0x78, 0x0A, digit (v / 100), digit (v / 10), digit v, 0]

/-- The format version that a magic spells (`version`). -/
def version (h : Header) : Nat :=
  (h.magic.toList.extract 4 7).foldl (fun v digit => v * 10 + ((digit - 0x30) % 10).toNat) 0

/-! ## 3. Writing -/

/-- The words after the signature. -/
def words (h : Header) : List UInt32 :=
  [h.fileSize, h.headerSize, h.endianTag, h.linkSize, h.linkOff, h.mapOff,
    h.stringIdsSize, h.stringIdsOff, h.typeIdsSize, h.typeIdsOff,
    h.protoIdsSize, h.protoIdsOff, h.fieldIdsSize, h.fieldIdsOff,
    h.methodIdsSize, h.methodIdsOff, h.classDefsSize, h.classDefsOff,
    h.dataSize, h.dataOff]

/-- The names of the words. -/
def wordNames : List String :=
  ["file_size", "header_size", "endian_tag", "link_size", "link_off", "map_off",
    "string_ids_size", "string_ids_off", "type_ids_size", "type_ids_off",
    "proto_ids_size", "proto_ids_off", "field_ids_size", "field_ids_off",
    "method_ids_size", "method_ids_off", "class_defs_size", "class_defs_off",
    "data_size", "data_off"]

/-- Writes the header over the first bytes of a buffer (`write`). -/
def put (h : Header) : BufferWriter Unit := do
  if (← get).length < size then
    throw .outOfBounds
  Bytes.overwrite 0 h.magic.toList
  let _ ← LittleEndian.put checksumAt h.checksum
  Bytes.overwrite signatureAt h.signature.toList
  let _ ← h.words.foldlM LittleEndian.put wordsAt

/-- The buffer with the header over its first bytes. -/
def write (h : Header) (data : List UInt8) : Except Error (List UInt8) :=
  match h.put data with
  | .ok _ data => .ok data
  | .error cause _ => .error cause

/-! ## 4. Reading -/

/-- Whether a magic has the fixed bytes of the format; any version will do. -/
def validMagic (magic : Vector UInt8 8) : Bool :=
  magic.toList.take 4 == [0x64, 0x65, 0x78, 0x0A] && magic[7] == 0

/-- Refuses a magic of another format. -/
def checkMagic (magic : Vector UInt8 8) : Except Error Unit :=
  if validMagic magic then
    .ok ()
  else
    let digits := magic.toList.map fun b => Text.hexPadded 2 b.toNat
    .error (.malformed s!"Invalid DEX magic - {Text.bracketed digits}")

/-- Refuses a header of another length. -/
def checkSize (headerSize : UInt32) : Except Error Unit :=
  if headerSize.toNat == size then
    .ok ()
  else
    .error (.malformed s!"Invalid header size: expected 0x70, got 0x{Text.hex headerSize.toNat}")

/-- Refuses another byte order. -/
def checkEndian (endianTag : UInt32) : Except Error Unit :=
  if endianTag == endianMark then
    .ok ()
  else
    .error (.malformed s!"Unsupported endian tag 0x{Text.hexPadded 8 endianTag.toNat}")

/-- Reads the fields in their order, each check as soon as its field has been read (`read`). -/
def reader : Reader Header := do
  let magic ← Cursor.block 8
  checkMagic magic
  let checksum ← Cursor.field UInt32
  let signature ← Cursor.block 20
  let fileSize ← Cursor.field UInt32
  let headerSize ← Cursor.field UInt32
  checkSize headerSize
  let endianTag ← Cursor.field UInt32
  checkEndian endianTag
  return {
    magic, checksum, signature, fileSize, headerSize, endianTag
    linkSize := ← Cursor.field UInt32
    linkOff := ← Cursor.field UInt32
    mapOff := ← Cursor.field UInt32
    stringIdsSize := ← Cursor.field UInt32
    stringIdsOff := ← Cursor.field UInt32
    typeIdsSize := ← Cursor.field UInt32
    typeIdsOff := ← Cursor.field UInt32
    protoIdsSize := ← Cursor.field UInt32
    protoIdsOff := ← Cursor.field UInt32
    fieldIdsSize := ← Cursor.field UInt32
    fieldIdsOff := ← Cursor.field UInt32
    methodIdsSize := ← Cursor.field UInt32
    methodIdsOff := ← Cursor.field UInt32
    classDefsSize := ← Cursor.field UInt32
    classDefsOff := ← Cursor.field UInt32
    dataSize := ← Cursor.field UInt32
    dataOff := ← Cursor.field UInt32 }

/-- Reads the header at the start of a container. -/
def read (data : List UInt8) : Except Error Header :=
  if data.length < size then .error .outOfBounds else (Cursor.ofList data).answer reader

/-! ## 5. The places of the fields -/

/-- The bytes at an offset; zero beyond the end. -/
def bytesAt (data : List UInt8) (offset count : Nat) : Vector UInt8 count :=
  let rest := data.drop offset
  Vector.ofFn fun i => rest.getD i 0

/-- The word at a place after the signature. -/
def wordAt (data : List UInt8) (place : Nat) : UInt32 :=
  LittleEndian.decode ((data.drop (wordsAt + 4 * place)).take 4)

/-- The header with the fields at their places, whatever they hold. -/
def fields (data : List UInt8) : Header where
  magic := bytesAt data 0 8
  checksum := LittleEndian.decode ((data.drop checksumAt).take 4)
  signature := bytesAt data signatureAt 20
  fileSize := wordAt data 0
  headerSize := wordAt data 1
  endianTag := wordAt data 2
  linkSize := wordAt data 3
  linkOff := wordAt data 4
  mapOff := wordAt data 5
  stringIdsSize := wordAt data 6
  stringIdsOff := wordAt data 7
  typeIdsSize := wordAt data 8
  typeIdsOff := wordAt data 9
  protoIdsSize := wordAt data 10
  protoIdsOff := wordAt data 11
  fieldIdsSize := wordAt data 12
  fieldIdsOff := wordAt data 13
  methodIdsSize := wordAt data 14
  methodIdsOff := wordAt data 15
  classDefsSize := wordAt data 16
  classDefsOff := wordAt data 17
  dataSize := wordAt data 18
  dataOff := wordAt data 19

/-! ## 6. Digests -/

section Digests

variable (sign : List UInt8 → Vector UInt8 20) (sum : List UInt8 → UInt32)

/-- The checksum that a container holds (`stored_checksum`). -/
def storedChecksum (data : List UInt8) : Except Error UInt32 :=
  (LittleEndian.readAt UInt32 data checksumAt).map (·.1)

/-- The checksum that a container should hold, of everything after it (`checksum`). -/
def checksumWith (data : List UInt8) : Except Error UInt32 :=
  if data.length < size then .error .outOfBounds else .ok (sum (data.drop signatureAt))

/-- The signature that a container should hold, of everything after it (`signature`). -/
def signatureWith (data : List UInt8) : Except Error (Vector UInt8 20) :=
  if data.length < size then .error .outOfBounds else .ok (sign (data.drop wordsAt))

/-- **Sealing.**  Stores the signature and then the checksum, which covers the signature
(`seal`). -/
def storeDigests : BufferWriter Unit := do
  let signature ← signatureWith sign (← get)
  Bytes.overwrite signatureAt signature.toList
  let checksum ← checksumWith sum (← get)
  Bytes.overwrite checksumAt (LittleEndian.encode checksum)

/-- The container with both digests filled in. -/
def sealedWith (data : List UInt8) : Except Error (List UInt8) :=
  match storeDigests sign sum data with
  | .ok _ data => .ok data
  | .error cause _ => .error cause

end Digests

/-- The checksum that a container should hold. -/
def checksumOf (data : List UInt8) : Except Error UInt32 :=
  checksumWith Adler32.checksum data

/-- The signature that a container should hold. -/
def signatureOf (data : List UInt8) : Except Error (Vector UInt8 20) :=
  signatureWith Sha1.digest data

/-- The container with its digests filled in. -/
def sealed (data : List UInt8) : Except Error (List UInt8) :=
  sealedWith Sha1.digest Adler32.checksum data

end Header

end Dalvik
