/-
# The id tables read back

A reader that starts at the header and only follows counts, offsets and indices finds the pools of
the catalog: the strings with their lengths, the types among the strings, the prototypes by their
short forms, their types and their type lists, and the fields and methods by what they name.

The records hold indices, and an index is the place of an item in its pool.  Type lists are shared
by content, so the list at an offset is one with the same key; it is the same list because its key
is too short to collide, for all that the key is made of has been written, and the container is
small.

* `Pools.read` is the reader, and `Pools.of` what it is to find;
* `Written.typeList_at` is the statement for type lists;
* `pools_read_back` is the one for the pools.
-/
import Dalvik.Proofs.Container.Assembly
import Dalvik.Proofs.Container.PoolOrder
import Dalvik.Proofs.Key

namespace Dalvik

/-! ## 1. The reader -/

namespace Container

/-- The entry at a place of what has been read. -/
def entryAt {α : Type} (entries : List α) (place : Nat) : Except Error α :=
  match entries[place]? with
  | some a => .ok a
  | none => .error .outOfBounds

/-- Reads the records of a table. -/
def readTable {α : Type} (data : List UInt8) (t : Table) (r : Reader α) : Except Error (List α) :=
  Reader.answerAt data t.offset.toNat (Reader.times t.count.toNat r)

/-- A string as a container has it. -/
structure StringFound where
  /-- The number that is before the string. -/
  unitLength : Nat
  value : String
  deriving DecidableEq, Repr, Inhabited

/-- Reads a string and the length before it. -/
def StringFound.read : Reader StringFound := do
  let length ← Cursor.uleb128
  let value ← Cursor.mutf8
  return { unitLength := length.toNat, value }

/-- The record of a prototype. -/
structure ProtoRecord where
  shorty : UInt32
  returnType : UInt32
  /-- The offset of the type list, zero for none. -/
  parameters : UInt32
  deriving DecidableEq, Repr, Inhabited

/-- Reads the record of a prototype. -/
def ProtoRecord.read : Reader ProtoRecord := do
  let shorty ← Cursor.field UInt32
  let returnType ← Cursor.field UInt32
  let parameters ← Cursor.field UInt32
  return { shorty, returnType, parameters }

/-- The record of a field or a method. -/
structure MemberRecord where
  owner : UInt16
  /-- The type of a field, or the prototype of a method. -/
  kind : UInt16
  name : UInt32
  deriving DecidableEq, Repr, Inhabited

/-- Reads the record of a field or a method. -/
def MemberRecord.read : Reader MemberRecord := do
  let owner ← Cursor.field UInt16
  let kind ← Cursor.field UInt16
  let name ← Cursor.field UInt32
  return { owner, kind, name }

/-- Reads the indices of a type list. -/
def readTypeIndices : Reader (List UInt16) := do
  let count ← Cursor.field UInt32
  Reader.times count.toNat (Cursor.field UInt16)

/-- Reads the type list at an offset, zero for none. -/
def readTypeList (data : List UInt8) (types : List String) (offset : UInt32) :
    Except Error (Option (List String)) := do
  if offset == 0 then
    return none
  else
    let indices ← Reader.answerAt data offset.toNat readTypeIndices
    let found ← indices.mapM fun index => entryAt types index.toNat
    return some found

/-- A prototype as a container has it. -/
structure ProtoFound where
  shorty : String
  returnType : String
  /-- The parameters, if there is a list of them. -/
  parameters? : Option (List String)
  deriving DecidableEq, Repr, Inhabited

/-- The prototype that has been found. -/
def ProtoFound.proto (p : ProtoFound) : Proto where
  returnType := p.returnType
  parameters := p.parameters?.getD []

/-- The pools as a container has them. -/
structure Pools where
  strings : List StringFound
  types : List String
  protos : List ProtoFound
  fields : List FieldRef
  methods : List MethodRef
  deriving DecidableEq, Repr, Inhabited

namespace Pools

/-- Reads the strings. -/
def readStrings (data : List UInt8) (t : IdTables) : Except Error (List StringFound) := do
  let offsets ← readTable data t.strings (Cursor.field UInt32)
  offsets.mapM fun offset => Reader.answerAt data offset.toNat StringFound.read

/-- Reads the types. -/
def readTypes (data : List UInt8) (t : IdTables) (strings : List StringFound) :
    Except Error (List String) := do
  let indices ← readTable data t.types (Cursor.field UInt32)
  indices.mapM fun index => return (← entryAt strings index.toNat).value

/-- Reads the prototypes. -/
def readProtos (data : List UInt8) (t : IdTables) (strings : List StringFound)
    (types : List String) : Except Error (List ProtoFound) := do
  let records ← readTable data t.protos ProtoRecord.read
  records.mapM fun record => do
    let shorty ← entryAt strings record.shorty.toNat
    let returnType ← entryAt types record.returnType.toNat
    let parameters? ← readTypeList data types record.parameters
    return { shorty := shorty.value, returnType, parameters? }

/-- Reads the fields. -/
def readFields (data : List UInt8) (t : IdTables) (strings : List StringFound)
    (types : List String) : Except Error (List FieldRef) := do
  let records ← readTable data t.fields MemberRecord.read
  records.mapM fun record => do
    let owner ← entryAt types record.owner.toNat
    let type ← entryAt types record.kind.toNat
    let name ← entryAt strings record.name.toNat
    return { owner, name := name.value, type }

/-- Reads the methods. -/
def readMethods (data : List UInt8) (t : IdTables) (strings : List StringFound)
    (types : List String) (protos : List ProtoFound) : Except Error (List MethodRef) := do
  let records ← readTable data t.methods MemberRecord.read
  records.mapM fun record => do
    let owner ← entryAt types record.owner.toNat
    let proto ← entryAt protos record.kind.toNat
    let name ← entryAt strings record.name.toNat
    return { owner, name := name.value, proto := proto.proto }

/-- **Reads the pools** of a container. -/
def read (data : List UInt8) : Except Error Pools := do
  let header ← Header.read data
  let t := IdTables.ofHeader header
  let strings ← readStrings data t
  let types ← readTypes data t strings
  let protos ← readProtos data t strings types
  let fields ← readFields data t strings types
  let methods ← readMethods data t strings types protos
  return { strings, types, protos, fields, methods }

end Pools

/-! ## 2. What is to be found -/

/-- A type list is found unless it is empty. -/
def listed (descriptors : List String) : Option (List String) :=
  if descriptors.isEmpty then none else some descriptors

/-- A string is found with its length in code units. -/
def StringFound.of (value : String) : StringFound where
  unitLength := Text.unitLength value
  value := value

/-- A prototype is found with its short form, and with its parameters if it has any. -/
def ProtoFound.of (p : Proto) : ProtoFound where
  shorty := p.shorty
  returnType := p.returnType
  parameters? := listed p.parameters

/-- **The pools of a catalog.** -/
def Pools.of (c : Catalog) : Pools where
  strings := c.strings.items.map StringFound.of
  types := c.types.items
  protos := c.protos.items.map ProtoFound.of
  fields := c.fields.items
  methods := c.methods.items

theorem ProtoFound.proto_of (p : Proto) : (ProtoFound.of p).proto = p := by
  have hparameters : (listed p.parameters).getD [] = p.parameters := by
    unfold listed
    split
    case isTrue h => exact (List.isEmpty_iff.mp h).symm
    case isFalse => rfl
  cases p
  rw [proto, of, hparameters]

theorem entryAt_eq_ok {α : Type} {entries : List α} {place : Nat} {a : α}
    (h : entries[place]? = some a) : entryAt entries place = .ok a := by
  rw [entryAt, h]

end Container

/-! ## 3. Records -/

namespace Catalog

variable {c : Catalog}

theorem place_of_indexer {r : Reference} {index : UInt32} (h : c.indexer r = .ok index) :
    ∃ place, c.place? r = some place ∧ place.toUInt32 = index := by
  unfold indexer at h
  split at h
  case h_1 place hp => exact ⟨place, hp, Except.ok.inj h⟩
  case h_2 =>
    cases r <;> cases h

/-- The index of an item is its place. -/
theorem place_of_index {α : Type} [BEq α] {p : Pool α} {reference : α → Reference} (hs : p.InStep)
    (hp : ∀ a, c.place? (reference a) = p.index? a) {a : α} {index : UInt32}
    (h : c.indexer (reference a) = .ok index) : p.index? a = some index.toNat := by
  obtain ⟨place, hplace, rfl⟩ := place_of_indexer h
  rw [hp] at hplace
  obtain ⟨hlt, -⟩ := List.getElem?_eq_some_iff.mp ((hs.index?_iff a place).mp hplace)
  rw [hplace, Nat.toUInt32_eq, UInt32.toNat_ofNat_of_lt' (Nat.lt_of_lt_of_le hlt hs.length_le)]

/-- An item is at its index. -/
theorem item_of_index {α : Type} [BEq α] {p : Pool α} {reference : α → Reference} (hs : p.InStep)
    (hp : ∀ a, c.place? (reference a) = p.index? a) {a : α} {index : UInt32}
    (h : c.indexer (reference a) = .ok index) : p.items[index.toNat]? = some a :=
  (hs.index?_iff a index.toNat).mp (place_of_index hs hp h)

theorem half_of_index {pool : String} {r : Reference} {half : UInt16}
    (h : (c.indexer r >>= narrowIndex pool) = .ok half) :
    ∃ index, c.indexer r = .ok index ∧ half.toNat = index.toNat := by
  obtain ⟨index, hi, h⟩ := bind_eq_ok.mp h
  refine ⟨index, hi, ?_⟩
  unfold narrowIndex at h
  split at h
  case isTrue hlt =>
    cases h
    have hn : index.toNat < 0x10000 := UInt32.lt_iff_toNat_lt.mp hlt
    rw [UInt32.toNat_toUInt16]
    omega
  case isFalse => cases h

end Catalog

namespace Container

/-- A table whose records are each read as what they are of reads as the list. -/
theorem readTable_eq_ok {α β : Type} {t : Table} {data : List UInt8} {write : α → Part}
    {items : List α} {r : Reader β} {P : α → β → Prop} (h : t.Records data write items)
    (hr : ∀ a record, write a = .ok record →
      ∃ found, P a found ∧ ∀ pos, Takes r pos record found) :
    ∃ found, readTable data t r = .ok found ∧ List.Forall₂ P items found := by
  obtain ⟨found, hfound, hread⟩ := h.read hr
  exact ⟨found, hread, hfound⟩

namespace Written

variable {options : Options} {classes : List ClassDef} {bytes : List UInt8} {c : Catalog}
  {tables : IdTables} {placed : Catalog.Placed} {s : Stream}

/-! ## 4. Indices -/

section

variable (w : Written options classes bytes c tables placed s)

include w

theorem strings_eq : placed.catalog.strings = c.strings := by
  obtain ⟨o, ho, -⟩ := w.layers.shared
  rw [ho]
  rfl

theorem protos_eq : placed.catalog.protos = c.protos := by
  obtain ⟨o, ho, -⟩ := w.layers.shared
  rw [ho]
  rfl

theorem classes_eq : placed.catalog.classes = c.classes := by
  obtain ⟨o, ho, -⟩ := w.layers.shared
  rw [ho]
  rfl

theorem length_strings : placed.strings.length = placed.catalog.strings.items.length := by
  rw [w.strings_eq, ← w.layers.strings.items.length_eq, List.length_map]

theorem length_strings_lt : placed.catalog.strings.items.length < 0x100000000 := by
  rw [← w.length_strings, ← w.hold.strings.count]
  exact UInt32.toNat_lt _

theorem length_types_lt : placed.catalog.types.items.length < 0x100000000 :=
  w.hold.types.count ▸ UInt32.toNat_lt _

theorem string_of_index {value : String} {index : UInt32}
    (h : placed.catalog.indexer (.string value) = .ok index) :
    placed.catalog.strings.items[index.toNat]? = some value :=
  Catalog.item_of_index w.serves.inStep.strings (fun _ => rfl) h

theorem type_of_index {descriptor : String} {index : UInt32}
    (h : placed.catalog.indexer (.type descriptor) = .ok index) :
    placed.catalog.types.items[index.toNat]? = some descriptor :=
  Catalog.item_of_index w.serves.inStep.types (fun _ => rfl) h

theorem proto_of_index {p : Proto} {index : UInt32}
    (h : placed.catalog.indexer (.proto p) = .ok index) :
    placed.catalog.protos.items[index.toNat]? = some p :=
  Catalog.item_of_index w.serves.inStep.protos (fun _ => rfl) h

/-- The string that an index leads to. -/
theorem entry_string {value : String} {index : UInt32}
    (h : placed.catalog.indexer (.string value) = .ok index) :
    entryAt (placed.catalog.strings.items.map StringFound.of) index.toNat = .ok (.of value) := by
  refine entryAt_eq_ok ?_
  rw [List.getElem?_map, w.string_of_index h]
  rfl

/-- The type that an index leads to, which may have been narrowed. -/
theorem entry_type {d : String} {n : Nat} (h : ∃ index,
    placed.catalog.indexer (.type d) = .ok index ∧ n = index.toNat) :
    entryAt placed.catalog.types.items n = .ok d := by
  obtain ⟨index, hi, rfl⟩ := h
  exact entryAt_eq_ok (w.type_of_index hi)

/-- The prototype that an index leads to, which may have been narrowed. -/
theorem entry_proto {p : Proto} {n : Nat} (h : ∃ index,
    placed.catalog.indexer (.proto p) = .ok index ∧ n = index.toNat) :
    entryAt (placed.catalog.protos.items.map ProtoFound.of) n = .ok (.of p) := by
  obtain ⟨index, hi, rfl⟩ := h
  refine entryAt_eq_ok ?_
  rw [List.getElem?_map, w.proto_of_index hi]
  rfl

end

/-! ## 5. Strings and types -/

theorem takes_string {value : String} {data : List UInt8}
    (h : Part.joined (Catalog.stringParts value) = .ok data) (pos : Nat) :
    Takes StringFound.read pos data (.of value) := by
  obtain ⟨_, _, hcount, hrest, rfl⟩ := Part.joined_cons_eq_ok.mp h
  obtain ⟨_, _, hvalue, hnil, rfl⟩ := Part.joined_cons_eq_ok.mp hrest
  obtain ⟨length, hlength, rfl⟩ := map_eq_ok.mp hcount
  obtain rfl := Except.ok.inj hvalue
  obtain rfl := Except.ok.inj hnil
  rw [List.append_nil, StringFound.of, ← Bytes.narrow32_eq_ok hlength]
  exact (Takes.uleb128 pos length).bind (Takes.mutf8 _ value).map

section

variable (w : Written options classes bytes c tables placed s)

include w

/-- The strings, each at its offset. -/
theorem strings_at : List.Forall₂ (fun value offset => ∃ data,
    Part.joined (Catalog.stringParts value) = .ok data ∧ s.HasAt offset data)
      placed.catalog.strings.items placed.strings := by
  have h := w.layers.strings.items
  rwa [List.forall₂_map_left_iff, ← w.strings_eq] at h

theorem readStrings_eq : Pools.readStrings bytes tables =
    .ok (placed.catalog.strings.items.map .of) := by
  obtain ⟨offsets, hread, hoffsets⟩ := readTable_eq_ok (r := Cursor.field UInt32) (P := Eq)
    w.hold.strings fun offset record hr => ⟨offset, rfl, fun pos => by
      rw [← Except.ok.inj hr]
      exact .field pos offset⟩
  rw [List.forall₂_eq_eq_eq] at hoffsets
  subst hoffsets
  refine bind_eq_ok.mpr ⟨placed.strings, hread, mapM_eq_ok.mpr ?_⟩
  rw [List.forall₂_map_right_iff]
  refine w.strings_at.flip.imp ?_
  rintro offset value ⟨data, hd, hat⟩
  exact answerAt_of_takes (takes_string hd _) (hat.stands w.data)

theorem readTypes_eq : Pools.readTypes bytes tables (placed.catalog.strings.items.map .of) =
    .ok placed.catalog.types.items := by
  have hrecord : ∀ (d : String) record, placed.catalog.stringWord d = .ok record →
      ∃ index : UInt32, placed.catalog.indexer (.string d) = .ok index ∧
        ∀ pos, Takes (Cursor.field UInt32) pos record index := by
    intro d record hr
    obtain ⟨index, hi, rfl⟩ := map_eq_ok.mp hr
    exact ⟨index, hi, fun pos => .field pos index⟩
  obtain ⟨indices, hread, hindices⟩ := readTable_eq_ok w.hold.types hrecord
  refine bind_eq_ok.mpr ⟨indices, hread, mapM_eq_ok.mpr (hindices.flip.imp ?_)⟩
  intro index d hi
  exact bind_eq_ok.mpr ⟨_, w.entry_string hi, rfl⟩

end

/-! ## 6. Type lists -/

/-- The indices of a type list are read back, and the list is not longer than its bytes. -/
theorem takes_typeList {p : Catalog} {l : List String} {data : List UInt8}
    (h : Part.joined (p.typeListParts l) = .ok data) :
    ∃ indices : List UInt16, List.Forall₂ (fun d half => ∃ index,
        p.indexer (.type d) = .ok index ∧ half.toNat = index.toNat) l indices ∧
      (∀ pos, Takes readTypeIndices pos data indices) ∧ 2 * l.length < data.length := by
  obtain ⟨_, _, hcount, hrest, rfl⟩ := Part.joined_cons_eq_ok.mp h
  obtain ⟨count, hn, rfl⟩ := map_eq_ok.mp hcount
  obtain ⟨chunks, hchunks, rfl⟩ := Part.joined_eq_ok.mp hrest
  rw [List.forall₂_map_left_iff] at hchunks
  have hhalf : ∀ d chunk, p.typeHalf d = .ok chunk → ∃ half : UInt16,
      (∃ index, p.indexer (.type d) = .ok index ∧ half.toNat = index.toNat) ∧
        ∀ pos, Takes (Cursor.field UInt16) pos chunk half := by
    intro d chunk hd
    rw [Catalog.typeHalf_eq] at hd
    obtain ⟨half, hh, rfl⟩ := map_eq_ok.mp hd
    exact ⟨half, Catalog.half_of_index hh, fun pos => .field pos half⟩
  obtain ⟨indices, hindices, htakes⟩ := exists_forall₂ hchunks hhalf
  have hcount : count.toNat = indices.length :=
    (Bytes.narrow32_eq_ok hn).trans hindices.length_eq
  refine ⟨indices, hindices, fun pos => (Takes.field pos count).bind ?_, ?_⟩
  · rw [hcount]
    exact .times htakes _
  · have hword : LittleEndian.width UInt32 = 4 := rfl
    rw [List.length_append, LittleEndian.length_encode, hword,
      Table.length_records hchunks Catalog.sized_typeHalf]
    omega

section

variable (w : Written options classes bytes c tables placed s)

include w

/-- A string is not longer than the container. -/
theorem utf8ByteSize_lt {value : String} (h : value ∈ placed.catalog.strings.items) :
    value.utf8ByteSize < 0x100000000 := by
  obtain ⟨offset, -, data, hd, place, -, hat⟩ := exists_of_mem_left w.strings_at value h
  obtain ⟨_, _, -, hrest, rfl⟩ := Part.joined_cons_eq_ok.mp hd
  obtain ⟨_, _, hvalue, -, rfl⟩ := Part.joined_cons_eq_ok.mp hrest
  obtain rfl := Except.ok.inj hvalue
  have hle := hat.le
  have hutf8 := Mutf8.utf8ByteSize_le value
  have hsmall := w.small
  simp only [List.length_append, Array.length_toList] at hle
  omega

/-- The descriptor of a type that has an index is among the strings. -/
theorem descriptor_mem {d : String} {index : UInt32}
    (h : placed.catalog.indexer (.type d) = .ok index) : d ∈ placed.catalog.strings.items := by
  have hd := List.mem_of_getElem? (w.type_of_index h)
  have hreached := (w.serves.stored _ (Catalog.stored_type.mpr hd)).implied (.descriptor d)
  exact Catalog.stored_string.mp ((w.serves.holds _ hreached).stored trivial)

/-- **A type list** is at the offset that the catalog has for it. -/
theorem typeList_at {l : List String} {offset : UInt32}
    (h : placed.catalog.typeLists.offsetOf l = .ok offset) :
    ∃ data, Part.joined (placed.catalog.typeListParts l) = .ok data ∧ s.HasAt offset data := by
  obtain ⟨o, ho, hran⟩ := w.layers.shared
  have hparts : placed.catalog.typeListParts = c.typeListParts := by
    rw [ho]
    rfl
  rw [← hparts] at hran
  obtain ⟨b, hb, hkey⟩ := SharedItems.mem_of_offsetOf h
  rw [ho] at hb
  have hitems := hran.items
  rw [List.forall₂_map_left_iff] at hitems
  obtain ⟨data, hd, hat⟩ := (List.forall₂_iff_zip.mp hitems).2 hb
  obtain ⟨indices, hindices, -, hlength⟩ := takes_typeList hd
  have hmem : ∀ d ∈ b, d.utf8ByteSize ≤ 0xFFFFFFFF := by
    intro d hdb
    obtain ⟨half, -, index, hi, -⟩ := exists_of_mem_left hindices d hdb
    exact Nat.le_of_lt_succ (w.utf8ByteSize_lt (w.descriptor_mem hi))
  have hshort : (key b).length < Keyed.limit := by
    have hle := length_key_strings_le hmem
    obtain ⟨place, -, hs⟩ := hat
    have hfit := hs.le
    have hsmall := w.small
    have hsize : s.data.toList.length = s.data.size := Array.length_toList
    have hlimit : Keyed.limit = 0x10000000000000000 := rfl
    omega
  rw [← (selfDelimiting _).injective hshort hkey]
  exact ⟨data, hd, hat⟩

/-- Nothing in the data section has the offset zero. -/
theorem ne_zero_of_le {offset : UInt32} (h : s.base.toNat ≤ offset.toNat) : offset ≠ 0 := by
  rintro rfl
  have hstart := w.start
  have hsize : Header.size = 0x70 := rfl
  have hzero : (0 : UInt32).toNat = 0 := rfl
  omega

theorem offset_ne_zero {offset : UInt32} {data : List UInt8} (h : s.HasAt offset data) :
    offset ≠ 0 := by
  obtain ⟨place, ho, -⟩ := h
  exact w.ne_zero_of_le (by omega)

theorem readTypeList_eq {l : List String} {offset : UInt32}
    (h : placed.catalog.typeListOffset l = .ok offset) :
    readTypeList bytes placed.catalog.types.items offset = .ok (listed l) := by
  unfold Catalog.typeListOffset at h
  unfold listed
  split at h
  case isTrue he =>
    cases h
    rw [if_pos he]
    rfl
  case isFalse he =>
    obtain ⟨data, hd, hat⟩ := w.typeList_at h
    obtain ⟨indices, hindices, htakes, -⟩ := takes_typeList hd
    have hread := answerAt_of_takes (htakes _) (hat.stands w.data)
    have hfound : (indices.mapM fun index => entryAt placed.catalog.types.items index.toNat) =
        .ok l := by
      refine mapM_eq_ok.mpr (hindices.flip.imp ?_)
      intro half d hi
      exact w.entry_type hi
    have hne : ¬ (offset == 0) = true := by
      rw [beq_iff_eq]
      exact w.offset_ne_zero hat
    rw [if_neg he, readTypeList, if_neg hne]
    exact bind_eq_ok.mpr ⟨indices, hread, bind_eq_ok.mpr ⟨l, hfound, rfl⟩⟩

end

/-! ## 7. Prototypes and members -/

theorem takes_protoParts {p : Catalog} {x : Proto} {record : List UInt8}
    (h : Part.joined (p.protoParts x) = .ok record) :
    ∃ found : ProtoRecord, (p.indexer (.string x.shorty) = .ok found.shorty ∧
      p.indexer (.type x.returnType) = .ok found.returnType ∧
      p.typeListOffset x.parameters = .ok found.parameters) ∧
        ∀ pos, Takes ProtoRecord.read pos record found := by
  obtain ⟨_, _, hshorty, hr₁, rfl⟩ := Part.joined_cons_eq_ok.mp h
  obtain ⟨_, _, hreturn, hr₂, rfl⟩ := Part.joined_cons_eq_ok.mp hr₁
  obtain ⟨_, _, hlist, hnil, rfl⟩ := Part.joined_cons_eq_ok.mp hr₂
  obtain ⟨shorty, hs, rfl⟩ := map_eq_ok.mp hshorty
  obtain ⟨returnType, ht, rfl⟩ := map_eq_ok.mp hreturn
  obtain ⟨parameters, hl, rfl⟩ := map_eq_ok.mp hlist
  obtain rfl := Except.ok.inj hnil
  refine ⟨⟨shorty, returnType, parameters⟩, ⟨hs, ht, hl⟩, fun pos => ?_⟩
  rw [List.append_nil]
  exact (Takes.field pos _).bind ((Takes.field _ _).bind (Takes.field _ _).map)

/-- The record of a field or a method, made of two halves and a word. -/
theorem takes_memberParts {owner kind : Except Error UInt16} {name : Except Error UInt32}
    {record : List UInt8} (h : Part.joined [owner.map LittleEndian.encode,
      kind.map LittleEndian.encode, name.map LittleEndian.encode] = .ok record) :
    ∃ found : MemberRecord, (owner = .ok found.owner ∧ kind = .ok found.kind ∧
      name = .ok found.name) ∧ ∀ pos, Takes MemberRecord.read pos record found := by
  obtain ⟨_, _, howner, hr₁, rfl⟩ := Part.joined_cons_eq_ok.mp h
  obtain ⟨_, _, hkind, hr₂, rfl⟩ := Part.joined_cons_eq_ok.mp hr₁
  obtain ⟨_, _, hname, hnil, rfl⟩ := Part.joined_cons_eq_ok.mp hr₂
  obtain ⟨first, hf, rfl⟩ := map_eq_ok.mp howner
  obtain ⟨second, hs, rfl⟩ := map_eq_ok.mp hkind
  obtain ⟨index, hi, rfl⟩ := map_eq_ok.mp hname
  obtain rfl := Except.ok.inj hnil
  refine ⟨⟨first, second, index⟩, ⟨hf, hs, hi⟩, fun pos => ?_⟩
  rw [List.append_nil]
  exact (Takes.field pos _).bind ((Takes.field _ _).bind (Takes.field _ _).map)

section

variable (w : Written options classes bytes c tables placed s)

include w

theorem readProtos_eq : Pools.readProtos bytes tables
    (placed.catalog.strings.items.map .of) placed.catalog.types.items =
      .ok (placed.catalog.protos.items.map .of) := by
  obtain ⟨records, hread, hrecords⟩ :=
    readTable_eq_ok w.hold.protos fun _ _ => takes_protoParts
  refine bind_eq_ok.mpr ⟨records, hread, mapM_eq_ok.mpr ?_⟩
  rw [List.forall₂_map_right_iff]
  refine hrecords.flip.imp ?_
  rintro record p ⟨hs, ht, hl⟩
  refine bind_eq_ok.mpr ⟨_, w.entry_string hs, ?_⟩
  refine bind_eq_ok.mpr ⟨_, w.entry_type ⟨_, ht, rfl⟩, ?_⟩
  exact bind_eq_ok.mpr ⟨_, w.readTypeList_eq hl, rfl⟩

theorem readFields_eq : Pools.readFields bytes tables
    (placed.catalog.strings.items.map .of) placed.catalog.types.items =
      .ok placed.catalog.fields.items := by
  obtain ⟨records, hread, hrecords⟩ := readTable_eq_ok w.hold.fields fun f record hr => by
    rw [Catalog.fieldParts, Catalog.typeHalf_eq, Catalog.typeHalf_eq] at hr
    exact takes_memberParts hr
  refine bind_eq_ok.mpr ⟨records, hread, mapM_eq_ok.mpr (hrecords.flip.imp ?_)⟩
  rintro record f ⟨ho, hk, hn⟩
  refine bind_eq_ok.mpr ⟨_, w.entry_type (Catalog.half_of_index ho), ?_⟩
  refine bind_eq_ok.mpr ⟨_, w.entry_type (Catalog.half_of_index hk), ?_⟩
  exact bind_eq_ok.mpr ⟨_, w.entry_string hn, rfl⟩

theorem readMethods_eq : Pools.readMethods bytes tables
    (placed.catalog.strings.items.map .of) placed.catalog.types.items
    (placed.catalog.protos.items.map .of) = .ok placed.catalog.methods.items := by
  obtain ⟨records, hread, hrecords⟩ := readTable_eq_ok w.hold.methods fun m record hr => by
    rw [Catalog.methodParts, Catalog.typeHalf_eq, Catalog.protoHalf_eq] at hr
    exact takes_memberParts hr
  refine bind_eq_ok.mpr ⟨records, hread, mapM_eq_ok.mpr (hrecords.flip.imp ?_)⟩
  rintro record m ⟨ho, hk, hn⟩
  refine bind_eq_ok.mpr ⟨_, w.entry_type (Catalog.half_of_index ho), ?_⟩
  refine bind_eq_ok.mpr ⟨_, w.entry_proto (Catalog.half_of_index hk), ?_⟩
  refine bind_eq_ok.mpr ⟨_, w.entry_string hn, ?_⟩
  rw [ProtoFound.proto_of]
  rfl

end

end Written

/-! ## 8. Pools -/

/-- **The id tables read back.**  A reader of a container that has been written, whatever the
digests are, finds the pools that discovery has made of the classes, entry by entry. -/
theorem pools_read_back {sign : List UInt8 → Vector UInt8 20} {sum : List UInt8 → UInt32}
    {options : Options} {classes : List ClassDef} {bytes : List UInt8}
    (h : writeWith sign sum options classes = .ok bytes) :
    ∃ c, Catalog.discover options classes = .ok c ∧ Pools.read bytes = .ok (.of c) := by
  obtain ⟨c, tables, placed, s, w⟩ := written_of_write h
  refine ⟨c, w.discovered, ?_⟩
  have hpools : Pools.of c = Pools.of placed.catalog := by
    obtain ⟨o, ho, -⟩ := w.layers.shared
    rw [ho]
    rfl
  obtain ⟨header, hread, ht⟩ := w.header
  refine bind_eq_ok.mpr ⟨header, hread, ?_⟩
  rw [ht, hpools]
  refine bind_eq_ok.mpr ⟨_, w.readStrings_eq, bind_eq_ok.mpr ⟨_, w.readTypes_eq, ?_⟩⟩
  refine bind_eq_ok.mpr ⟨_, w.readProtos_eq, bind_eq_ok.mpr ⟨_, w.readFields_eq, ?_⟩⟩
  exact bind_eq_ok.mpr ⟨_, w.readMethods_eq, rfl⟩

/-- A class with an interface that is also the type of a parameter, so that the class and the
prototype of a method have one type list.  It has a member in each group: a static field and one of
instances, a method with code and one without. -/
def listenerClass : ClassDef where
  descriptor := "LMain;"
  superclass? := some "LBase;"
  interfaces := ["LRun;"]
  fields := [{ name := "count", type := "I", flags := ⟨8⟩ }, { name := "next", type := "LMain;" }]
  methods := [
    { name := "run", proto := { returnType := "V" }, flags := ⟨8⟩
      body? := some { slots := #[{ instruction? := some .nop }], order := #[0] } },
    { name := "on", proto := { returnType := "V", parameters := ["LRun;"] }, flags := ⟨0x400⟩ }]

theorem isOk_write_listenerClass : (Container.write {} [listenerClass]).isOk = true := by
  refine isOk_write ?_
  simp only [Image.ofClasses, Catalog.discover, Catalog.freeze, Catalog.freezeNames,
    Catalog.freezeProtos, Catalog.freezeMembers, Pool.freezeBy, Pool.freezeWith,
    Catalog.writeSection, MapList.write, MapList.parts, MapList.entries, mergeSort_eq_sortUpTo]
  decide +kernel

theorem pools_read_back_listenerClass :
    ∃ bytes, Container.write {} [listenerClass] = .ok bytes ∧
      ∃ c, Catalog.discover {} [listenerClass] = .ok c ∧ Pools.read bytes = .ok (.of c) := by
  obtain ⟨bytes, h⟩ := exists_of_isOk isOk_write_listenerClass
  exact ⟨bytes, h, pools_read_back h⟩

end Container

end Dalvik
