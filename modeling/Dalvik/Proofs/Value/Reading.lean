/-
# Values read back

A value says in its first byte of which type it is and, for numbers and indices, how many bytes of
it follow; arrays and annotations say how many values follow.  So a reader knows where a value ends
without knowing what comes after it.  What it finds is the value with indices for references: the
bytes have no more.

* `IndexedValue` is what a reader finds, and `EncodedValue.indexed` says what it is to find;
* `IndexedValue.readUpTo` reads a value of bounded depth, and the number of bytes left bounds the
  depth of any value that they hold;
* `EncodedValue.takes_parts` and its companions go through the parts of a value, an annotation and
  their lists, one case for each form;
* `value_reads_back` is the statement for bytes with anything after them.
-/
import Dalvik.Proofs.Container.Appending
import Dalvik.Proofs.Value.Payload

namespace Dalvik

/-! ## 1. Values with indices -/

mutual

/-- A typed constant that refers to the entries of the pools by index. -/
inductive IndexedValue where
  | byte (value : Int8)
  | short (value : Int16)
  | char (unit : UInt16)
  | int (value : Int32)
  | long (value : Int64)
  | float (bits : UInt32)
  | double (bits : UInt64)
  | methodType (index : UInt32)
  | methodHandle (index : UInt32)
  | string (index : UInt32)
  | type (index : UInt32)
  | field (index : UInt32)
  | method (index : UInt32)
  | enum (index : UInt32)
  | array (values : List IndexedValue)
  | annotationValue (content : IndexedAnnotation)
  | null
  | boolean (value : Bool)

/-- An annotation whose type and whose elements' names are indices. -/
structure IndexedAnnotation where
  type : UInt32
  elements : List (UInt32 × IndexedValue)

end

mutual

/-- The value with the index of each reference in its place. -/
def EncodedValue.indexed (ix : Indexer) : EncodedValue → Except Error IndexedValue
  | .byte value => .ok (.byte value)
  | .short value => .ok (.short value)
  | .char unit => .ok (.char unit)
  | .int value => .ok (.int value)
  | .long value => .ok (.long value)
  | .float bits => .ok (.float bits)
  | .double bits => .ok (.double bits)
  | .methodType proto => (ix (.proto proto)).map .methodType
  | .methodHandle index => (ix (.methodHandle index)).map .methodHandle
  | .string value => (ix (.string value)).map .string
  | .type descriptor => (ix (.type descriptor)).map .type
  | .field f => (ix (.field f)).map .field
  | .method m => (ix (.method m)).map .method
  | .enum f => (ix (.field f)).map .enum
  | .array values => (EncodedValue.indexedAll ix values).map .array
  | .annotationValue a => (a.indexed ix).map .annotationValue
  | .null => .ok .null
  | .boolean value => .ok (.boolean value)
termination_by structural value => value

/-- The annotation with indices for its type, the names of its elements, and what their values
refer to. -/
def EncodedAnnotation.indexed (ix : Indexer) : EncodedAnnotation → Except Error IndexedAnnotation
  | ⟨descriptor, elements⟩ => do
    let type ← ix (.type descriptor)
    return ⟨type, ← EncodedValue.indexedElements ix elements⟩
termination_by structural a => a

/-- The values of a list, with indices. -/
def EncodedValue.indexedAll (ix : Indexer) : List EncodedValue → Except Error (List IndexedValue)
  | [] => .ok []
  | value :: rest => do
    let first ← value.indexed ix
    return first :: (← EncodedValue.indexedAll ix rest)
termination_by structural values => values

/-- Named elements, with indices. -/
def EncodedValue.indexedElements (ix : Indexer) :
    List (String × EncodedValue) → Except Error (List (UInt32 × IndexedValue))
  | [] => .ok []
  | (name, value) :: rest => do
    let index ← ix (.string name)
    let first ← value.indexed ix
    return (index, first) :: (← EncodedValue.indexedElements ix rest)
termination_by structural elements => elements

end

/-! ## 2. Readers -/

namespace IndexedValue

/-- The bytes of a number of at most `limit` bytes, one more than the argument says. -/
def payload (limit argument : Nat) : Reader (List UInt8) :=
  if argument < limit then
    Cursor.bytes (argument + 1)
  else
    throw (.malformed "value argument out of range")

/-- Nothing more than the argument, which is to be zero. -/
def noArgument (argument : Nat) : Reader Unit :=
  if argument = 0 then
    return ()
  else
    throw (.malformed "value argument out of range")

/-- A number of items that is given before them. -/
def counted {α : Type} (item : Reader α) : Reader (List α) := do
  let count ← Cursor.uleb128
  Reader.times count.toNat item

/-- The name of an element, and its value. -/
def element (value : Reader IndexedValue) : Reader (UInt32 × IndexedValue) := do
  let name ← Cursor.uleb128
  return (name, ← value)

/-- The type of an annotation, and its elements. -/
def annotation (value : Reader IndexedValue) : Reader IndexedAnnotation := do
  let type ← Cursor.uleb128
  return ⟨type, ← counted (element value)⟩

/-- What follows the first byte of a value, which gives the type and the argument; `value` reads
the values inside. -/
def content (value : Reader IndexedValue) (argument : Nat) : ValueType → Reader IndexedValue
  | .byte => return .byte (.ofInt (signExtended (← payload 1 argument)))
  | .short => return .short (.ofInt (signExtended (← payload 2 argument)))
  | .char => return .char (LittleEndian.decode (← payload 2 argument))
  | .int => return .int (.ofInt (signExtended (← payload 4 argument)))
  | .long => return .long (.ofInt (signExtended (← payload 8 argument)))
  | .float => return .float (zerosBelow (← payload 4 argument))
  | .double => return .double (zerosBelow (← payload 8 argument))
  | .methodType => return .methodType (LittleEndian.decode (← payload 4 argument))
  | .methodHandle => return .methodHandle (LittleEndian.decode (← payload 4 argument))
  | .string => return .string (LittleEndian.decode (← payload 4 argument))
  | .type => return .type (LittleEndian.decode (← payload 4 argument))
  | .field => return .field (LittleEndian.decode (← payload 4 argument))
  | .method => return .method (LittleEndian.decode (← payload 4 argument))
  | .enum => return .enum (LittleEndian.decode (← payload 4 argument))
  | .array => do
    noArgument argument
    return .array (← counted value)
  | .annotationValue => do
    noArgument argument
    return .annotationValue (← annotation value)
  | .null => do
    noArgument argument
    return .null
  | .boolean =>
    match argument with
    | 0 => return .boolean false
    | 1 => return .boolean true
    | _ => throw (.malformed "value argument out of range")

/-- Reads a value that is no deeper than a bound. -/
def readUpTo : (depth : Nat) → Reader IndexedValue
  | 0 => throw (.malformed "value nested too deeply")
  | depth + 1 => do
    let header ← Cursor.field UInt8
    match ValueType.ofCode? (header.toNat % 32) with
    | some t => content (readUpTo depth) (header.toNat / 32) t
    | none => throw (.malformed "unknown value type")

/-- Reads a value.  Each value takes a byte, so none is deeper than the number of bytes left. -/
def read : Reader IndexedValue := do
  readUpTo (← get).remaining

/-- The value at the start of the bytes, and the bytes after it. -/
def decode (data : List UInt8) : Except Error (IndexedValue × List UInt8) :=
  match read (Cursor.ofList data) with
  | .ok value c => .ok (value, c.rest)
  | .error cause _ => .error cause

end IndexedValue

/-- Reads an annotation. -/
def IndexedAnnotation.read : Reader IndexedAnnotation := do
  IndexedValue.annotation (IndexedValue.readUpTo (← get).remaining)

/-! ## 3. Payloads

Every payload holds its number: it is no wider than the type, and extending it gives the number
back. -/

namespace EncodedValue

/-- **A signed number** is what the sign of its payload extends. -/
theorem signedPayload_spec {limit : Nat} {value : Int64} (hlimit : 1 ≤ limit)
    (h : fitsSigned (8 * limit) value.toInt = true) :
    1 ≤ (signedPayload value).length ∧ (signedPayload value).length ≤ limit ∧
      IndexedValue.signExtended (signedPayload value) = value.toInt := by
  obtain ⟨hne, hback⟩ := (signedPayload_isShortest value).1.does
  exact ⟨List.length_pos_of_ne_nil hne, length_signedPayload_le hlimit h, hback⟩

/-- **An unsigned number** is what its payload stands for. -/
theorem unsignedPayload_spec {α : Type} [LittleEndian α] {a : α} {value : UInt64}
    (hwidth : 1 ≤ LittleEndian.width α) (h : value.toNat = LittleEndian.toNat a) :
    1 ≤ (unsignedPayload value).length ∧
      (unsignedPayload value).length ≤ LittleEndian.width α ∧
      LittleEndian.decode (unsignedPayload value) = a := by
  obtain ⟨hne, hback⟩ := (unsignedPayload_isShortest value).1.does
  have hlt := LittleEndian.toNat_lt a
  rw [← h] at hlt
  refine ⟨List.length_pos_of_ne_nil hne, length_unsignedPayload_le hwidth hlt, ?_⟩
  rw [LittleEndian.decode, hback, h, LittleEndian.ofNat_toNat]

/-- **A floating-point number** is what zeros below its payload complete. -/
theorem zerosBelow_highPayload {α : Type} [LittleEndian α] (a : α)
    (hwidth : 1 ≤ LittleEndian.width α) :
    1 ≤ (highPayload (LittleEndian.encode a)).length ∧
      (highPayload (LittleEndian.encode a)).length ≤ LittleEndian.width α ∧
      IndexedValue.zerosBelow (highPayload (LittleEndian.encode a)) = a := by
  obtain ⟨⟨⟨hne, hback⟩, -, -⟩, hsuffix⟩ :=
    highPayload_isShortest (LittleEndian.encode_ne_nil hwidth a)
  have hle := hsuffix.length_le
  rw [LittleEndian.length_encode] at hle hback
  refine ⟨List.length_pos_of_ne_nil hne, hle, ?_⟩
  rw [IndexedValue.zerosBelow, hback, LittleEndian.decode_encode]

end EncodedValue

/-! ## 4. What the readers take -/

namespace IndexedValue

/-- Some bytes are read as a value, wherever they stand. -/
def ReadsAs (bytes : List UInt8) (value : IndexedValue) : Prop :=
  ∀ depth, bytes.length ≤ depth → ∀ pos, Takes (readUpTo depth) pos bytes value

theorem takes_payload {bytes : List UInt8} {limit : Nat} (hone : 1 ≤ bytes.length)
    (hle : bytes.length ≤ limit) (pos : Nat) :
    Takes (payload limit (bytes.length - 1)) pos bytes bytes := by
  have hlt : bytes.length - 1 < limit := by omega
  rw [payload, if_pos hlt, Nat.sub_add_cancel hone]
  exact Takes.bytes pos bytes

/-- Items of one form after their number. -/
theorem takes_counted {α : Type} {item : Reader α} {chunks : List (List UInt8)} {items : List α}
    {front : List UInt8} (hcount : Part.count items.length = .ok front)
    (h : List.Forall₂ (fun bytes a => ∀ pos, Takes item pos bytes a) chunks items) (pos : Nat) :
    Takes (counted item) pos (front ++ chunks.flatten) items := by
  obtain ⟨count, hn, rfl⟩ := map_eq_ok.mp hcount
  have hitems := Takes.times h (pos + (Leb128.encodeUnsigned count).length)
  rw [← Bytes.narrow32_eq_ok hn] at hitems
  exact (Takes.uleb128 pos count).bind hitems

theorem takes_byte (pos : Nat) (b : UInt8) : Takes (Cursor.field UInt8) pos [b] b := by
  have h := Takes.field pos b
  have hbyte : LittleEndian.encode b = [b.toNat.toUInt8] := rfl
  rwa [hbyte, Nat.toUInt8_eq, UInt8.ofNat_toNat] at h

/-- **The first byte** gives the type and the argument back. -/
theorem readsAs_of_content {t : ValueType} {argument : UInt8} {bytes : List UInt8}
    {value : IndexedValue} (hargument : argument.toNat < 8)
    (h : ∀ depth, bytes.length ≤ depth → ∀ pos,
      Takes (content (readUpTo depth) argument.toNat t) pos bytes value) :
    ReadsAs (EncodedValue.headerByte t argument :: bytes) value := by
  intro depth hdepth pos
  obtain _ | depth := depth
  · cases hdepth
  have hcode := t.code_lt
  have hheader := EncodedValue.toNat_headerByte t hargument
  have htype : (EncodedValue.headerByte t argument).toNat % 32 = t.code := by omega
  have hrest : (EncodedValue.headerByte t argument).toNat / 32 = argument.toNat := by omega
  refine (takes_byte pos (EncodedValue.headerByte t argument)).bind ?_
  rw [htype, hrest, ValueType.ofCode?_code]
  exact h depth (Nat.le_of_succ_le_succ hdepth) _

/-- A value that is all payload. -/
theorem readsAs_of_payload {t : ValueType} {data bytes : List UInt8} {limit : Nat}
    {found : List UInt8 → IndexedValue} {value : IndexedValue} (hlimit : limit ≤ 8)
    (hcontent : ∀ inner argument,
      content inner argument t = do return found (← payload limit argument))
    (hspec : 1 ≤ data.length ∧ data.length ≤ limit ∧ found data = value)
    (h : EncodedValue.withPayload t data = .ok bytes) : ReadsAs bytes value := by
  obtain ⟨hone, hle, rfl⟩ := hspec
  obtain rfl : EncodedValue.headerByte t (data.length - 1).toUInt8 :: data = bytes :=
    Except.ok.inj h
  have hargument := EncodedValue.toNat_argument (Nat.le_trans hle hlimit)
  refine readsAs_of_content (by omega) ?_
  intro depth _ pos
  rw [hcontent, hargument]
  exact (takes_payload hone hle pos).map

/-- A value that is an index. -/
theorem readsAs_of_index {ix : Indexer} {t : ValueType} {r : Reference} {bytes : List UInt8}
    {wrap : UInt32 → IndexedValue} (hcontent : ∀ inner argument,
      content inner argument t = do return wrap (LittleEndian.decode (← payload 4 argument)))
    (h : EncodedValue.indexPart ix t r = .ok bytes) :
    ∃ value, (ix r).map wrap = .ok value ∧ ReadsAs bytes value := by
  obtain ⟨index, hindex, h⟩ := bind_eq_ok.mp h
  obtain ⟨hone, hle, hback⟩ := EncodedValue.unsignedPayload_spec (a := index) (by decide)
    (UInt32.toNat_toUInt64 index)
  refine ⟨wrap index, map_eq_ok.mpr ⟨index, hindex, rfl⟩, ?_⟩
  exact readsAs_of_payload (by decide) hcontent ⟨hone, hle, congrArg wrap hback⟩ h

/-- A value that is all in its first byte. -/
theorem readsAs_of_argument {t : ValueType} {argument : UInt8} {bytes : List UInt8}
    {value : IndexedValue} (hargument : argument.toNat < 8)
    (hcontent : ∀ inner, content inner argument.toNat t = return value)
    (h : Part.joined [.ok [EncodedValue.headerByte t argument]] = .ok bytes) :
    ReadsAs bytes value := by
  obtain rfl : [EncodedValue.headerByte t argument] = bytes := Except.ok.inj h
  refine readsAs_of_content hargument ?_
  intro depth _ pos
  rw [hcontent]
  exact Takes.pure pos value

/-- Values that are read one by one are read at every depth that is enough for all of them. -/
theorem forall₂_takes {α : Type} {r : Nat → Reader α} {chunks : List (List UInt8)}
    {items : List α} {depth : Nat}
    (h : List.Forall₂ (fun bytes a =>
      ∀ depth, bytes.length ≤ depth → ∀ pos, Takes (r depth) pos bytes a) chunks items)
    (hdepth : chunks.flatten.length ≤ depth) :
    List.Forall₂ (fun bytes a => ∀ pos, Takes (r depth) pos bytes a) chunks items := by
  induction h with
  | nil => exact .nil
  | cons hfirst _ ih =>
    rw [List.flatten_cons, List.length_append] at hdepth
    exact .cons (hfirst depth (by omega)) (ih (by omega))

end IndexedValue

namespace EncodedValue

variable {ix : Indexer}

open IndexedValue

/-- A byte is its own payload. -/
theorem signExtended_byte (value : Int8) : signExtended [value.toUInt8] = value.toInt := by
  have hcond := BitVec.toInt_eq_toNat_cond value.toUInt8.toBitVec
  have hlt := value.toUInt8.toNat_lt
  rw [Int8.toBitVec_toUInt8, Int8.toInt_toBitVec, ← Int8.toBitVec_toUInt8,
    UInt8.toNat_toBitVec] at hcond
  have hnat : Bytes.toNat [value.toUInt8] = value.toUInt8.toNat := rfl
  have hhalf : pow2 (8 * [value.toUInt8].length - 1) = 128 := rfl
  have hall : pow2 (8 * [value.toUInt8].length) = 256 := rfl
  rw [signExtended, signed, hnat, hhalf, hall]
  split at hcond <;> split <;> omega

mutual

/-- **The bytes of a value** are read as the value with indices. -/
theorem takes_parts : ∀ (v : EncodedValue) {bytes : List UInt8},
    Part.joined (v.parts ix) = .ok bytes → ∃ w, v.indexed ix = .ok w ∧ ReadsAs bytes w
  | .byte value, bytes, h => by
    have hone : 1 ≤ [value.toUInt8].length := Nat.le_refl 1
    have hle : [value.toUInt8].length ≤ 1 := Nat.le_refl 1
    refine ⟨.byte value, rfl, ?_⟩
    refine readsAs_of_payload (by decide) (fun _ _ => rfl) ⟨hone, hle, ?_⟩
      (Part.joined_singleton _ ▸ h)
    rw [signExtended_byte, Int8.ofInt_toInt]
  | .short value, bytes, h => by
    have hfits : fitsSigned (8 * 2) value.toInt64.toInt = true := by
      rw [Int16.toInt_toInt64]
      exact fitsSigned_toInt16 value
    obtain ⟨hone, hle, hback⟩ := signedPayload_spec (by decide) hfits
    refine ⟨.short value, rfl, ?_⟩
    refine readsAs_of_payload (by decide) (fun _ _ => rfl) ⟨hone, hle, ?_⟩
      (Part.joined_singleton _ ▸ h)
    rw [hback, Int16.toInt_toInt64, Int16.ofInt_toInt]
  | .int value, bytes, h => by
    have hfits : fitsSigned (8 * 4) value.toInt64.toInt = true := by
      rw [Int32.toInt_toInt64]
      exact fitsSigned_toInt32 value
    obtain ⟨hone, hle, hback⟩ := signedPayload_spec (by decide) hfits
    refine ⟨.int value, rfl, ?_⟩
    refine readsAs_of_payload (by decide) (fun _ _ => rfl) ⟨hone, hle, ?_⟩
      (Part.joined_singleton _ ▸ h)
    rw [hback, Int32.toInt_toInt64, Int32.ofInt_toInt]
  | .long value, bytes, h => by
    have hfits : fitsSigned (8 * 8) value.toInt = true := fitsSigned_toInt64 value
    obtain ⟨hone, hle, hback⟩ := signedPayload_spec (by decide) hfits
    refine ⟨.long value, rfl, ?_⟩
    refine readsAs_of_payload (by decide) (fun _ _ => rfl) ⟨hone, hle, ?_⟩
      (Part.joined_singleton _ ▸ h)
    rw [hback, Int64.ofInt_toInt]
  | .char unit, bytes, h => by
    obtain ⟨hone, hle, hback⟩ := unsignedPayload_spec (a := unit) (by decide)
      (UInt16.toNat_toUInt64 unit)
    refine ⟨.char unit, rfl, ?_⟩
    exact readsAs_of_payload (by decide) (fun _ _ => rfl)
      ⟨hone, hle, congrArg IndexedValue.char hback⟩ (Part.joined_singleton _ ▸ h)
  | .float bits, bytes, h => by
    obtain ⟨hone, hle, hback⟩ := zerosBelow_highPayload bits (by decide)
    refine ⟨.float bits, rfl, ?_⟩
    exact readsAs_of_payload (by decide) (fun _ _ => rfl)
      ⟨hone, hle, congrArg IndexedValue.float hback⟩ (Part.joined_singleton _ ▸ h)
  | .double bits, bytes, h => by
    obtain ⟨hone, hle, hback⟩ := zerosBelow_highPayload bits (by decide)
    refine ⟨.double bits, rfl, ?_⟩
    exact readsAs_of_payload (by decide) (fun _ _ => rfl)
      ⟨hone, hle, congrArg IndexedValue.double hback⟩ (Part.joined_singleton _ ▸ h)
  | .methodType _, bytes, h | .methodHandle _, bytes, h | .string _, bytes, h
  | .type _, bytes, h | .field _, bytes, h | .method _, bytes, h | .enum _, bytes, h =>
    readsAs_of_index (fun _ _ => rfl) (Part.joined_singleton _ ▸ h)
  | .null, bytes, h => ⟨.null, rfl, readsAs_of_argument (by decide) (fun _ => rfl) h⟩
  | .boolean true, bytes, h =>
    ⟨.boolean true, rfl, readsAs_of_argument (by decide) (fun _ => rfl) h⟩
  | .boolean false, bytes, h =>
    ⟨.boolean false, rfl, readsAs_of_argument (by decide) (fun _ => rfl) h⟩
  | .array values, bytes, h => by
    obtain ⟨_, _, hfirst, hrest, rfl⟩ := Part.joined_cons_eq_ok.mp h
    obtain rfl := Except.ok.inj hfirst
    obtain ⟨front, back, hcount, hback, rfl⟩ := Part.joined_cons_eq_ok.mp hrest
    obtain ⟨ws, chunks, hws, hchunks, rfl, hlength⟩ := takes_partsOfAll values hback
    refine ⟨.array ws, map_eq_ok.mpr ⟨ws, hws, rfl⟩, ?_⟩
    rw [List.singleton_append]
    refine readsAs_of_content (by decide) ?_
    intro depth hdepth pos
    rw [List.length_append] at hdepth
    rw [← hlength] at hcount
    exact (takes_counted hcount (forall₂_takes hchunks (by omega)) pos).map
  | .annotationValue a, bytes, h => by
    obtain ⟨_, _, hfirst, hrest, rfl⟩ := Part.joined_cons_eq_ok.mp h
    obtain rfl := Except.ok.inj hfirst
    obtain ⟨x, hx, htakes⟩ := takes_annotationParts a hrest
    refine ⟨.annotationValue x, map_eq_ok.mpr ⟨x, hx, rfl⟩, ?_⟩
    rw [List.singleton_append]
    refine readsAs_of_content (by decide) ?_
    intro depth hdepth pos
    exact (htakes depth hdepth pos).map
termination_by structural v => v

/-- **The bytes of an annotation** are read as the annotation with indices. -/
theorem takes_annotationParts : ∀ (a : EncodedAnnotation) {bytes : List UInt8},
    Part.joined (a.parts ix) = .ok bytes →
      ∃ x, a.indexed ix = .ok x ∧
        ∀ depth, bytes.length ≤ depth → ∀ pos, Takes (readUpTo depth |> annotation) pos bytes x
  | ⟨descriptor, elements⟩, bytes, h => by
    obtain ⟨_, _, hfirst, hrest, rfl⟩ := Part.joined_cons_eq_ok.mp h
    obtain ⟨type, htype, rfl⟩ := map_eq_ok.mp hfirst
    obtain ⟨front, back, hcount, hback, rfl⟩ := Part.joined_cons_eq_ok.mp hrest
    obtain ⟨es, chunks, hes, hchunks, rfl, hlength⟩ := takes_partsOfElements elements hback
    refine ⟨⟨type, es⟩, bind_eq_ok.mpr ⟨type, htype, bind_eq_ok.mpr ⟨es, hes, rfl⟩⟩, ?_⟩
    intro depth hdepth pos
    rw [List.length_append, List.length_append] at hdepth
    rw [← hlength] at hcount
    have hshort : chunks.flatten.length ≤ depth := by omega
    have hitems := forall₂_takes (r := fun depth => element (readUpTo depth)) hchunks hshort
    exact (Takes.uleb128 pos type).bind (takes_counted hcount hitems _).map
termination_by structural a => a

theorem takes_partsOfAll : ∀ (values : List EncodedValue) {bytes : List UInt8},
    Part.joined (partsOfAll ix values) = .ok bytes →
      ∃ ws chunks, indexedAll ix values = .ok ws ∧ List.Forall₂ ReadsAs chunks ws ∧
        chunks.flatten = bytes ∧ ws.length = values.length
  | [], bytes, h => ⟨[], [], rfl, .nil, Except.ok.inj h, rfl⟩
  | v :: rest, bytes, h => by
    obtain ⟨x, y, hx, hy, rfl⟩ := Part.joined_append_eq_ok.mp h
    obtain ⟨w, hw, hreads⟩ := takes_parts v hx
    obtain ⟨ws, chunks, hws, hchunks, rfl, hlength⟩ := takes_partsOfAll rest hy
    refine ⟨w :: ws, x :: chunks, ?_, .cons hreads hchunks, rfl, congrArg Nat.succ hlength⟩
    exact bind_eq_ok.mpr ⟨w, hw, bind_eq_ok.mpr ⟨ws, hws, rfl⟩⟩
termination_by structural values => values

theorem takes_partsOfElements : ∀ (elements : List (String × EncodedValue)) {bytes : List UInt8},
    Part.joined (partsOfElements ix elements) = .ok bytes →
      ∃ es chunks, indexedElements ix elements = .ok es ∧
        List.Forall₂ (fun bytes e => ∀ depth, bytes.length ≤ depth →
          ∀ pos, Takes (element (readUpTo depth)) pos bytes e) chunks es ∧
        chunks.flatten = bytes ∧ es.length = elements.length
  | [], bytes, h => ⟨[], [], rfl, .nil, Except.ok.inj h, rfl⟩
  | (name, v) :: rest, bytes, h => by
    obtain ⟨_, _, hname, hback, rfl⟩ := Part.joined_cons_eq_ok.mp h
    obtain ⟨index, hindex, rfl⟩ := map_eq_ok.mp hname
    obtain ⟨x, y, hx, hy, rfl⟩ := Part.joined_append_eq_ok.mp hback
    obtain ⟨w, hw, hreads⟩ := takes_parts v hx
    obtain ⟨es, chunks, hes, hchunks, rfl, hlength⟩ := takes_partsOfElements rest hy
    refine ⟨(index, w) :: es, (Leb128.encodeUnsigned index ++ x) :: chunks, ?_,
      .cons ?_ hchunks, ?_, congrArg Nat.succ hlength⟩
    · exact bind_eq_ok.mpr ⟨index, hindex, bind_eq_ok.mpr ⟨w, hw, bind_eq_ok.mpr ⟨es, hes, rfl⟩⟩⟩
    · intro depth hdepth pos
      rw [List.length_append] at hdepth
      exact (Takes.uleb128 pos index).bind (hreads depth (by omega) _).map
    · rw [List.flatten_cons, List.append_assoc]
termination_by structural elements => elements

end

end EncodedValue

/-! ## 5. Values with anything after them -/

/-- The number of bytes left is a depth that is enough for what stands there. -/
theorem Takes.of_remaining {α : Type} {reader : Nat → Reader α} {bytes : List UInt8} {a : α}
    (h : ∀ depth, bytes.length ≤ depth → ∀ pos, Takes (reader depth) pos bytes a) (pos : Nat) :
    Takes (do reader (← get).remaining) pos bytes a := by
  intro data hs
  have hle := hs.le
  have hremaining : bytes.length ≤ Cursor.remaining ⟨data, pos⟩ := by
    have hrun : Cursor.remaining ⟨data, pos⟩ = data.length - pos := rfl
    omega
  exact h _ hremaining pos data hs

theorem IndexedAnnotation.takes_read {ix : Indexer} {a : EncodedAnnotation} {bytes : List UInt8}
    (h : Part.joined (a.parts ix) = .ok bytes) :
    ∃ x, a.indexed ix = .ok x ∧ ∀ pos, Takes IndexedAnnotation.read pos bytes x := by
  obtain ⟨x, hx, htakes⟩ := EncodedValue.takes_annotationParts a h
  exact ⟨x, hx, Takes.of_remaining htakes⟩

theorem IndexedValue.decode_append {bytes : List UInt8} {value : IndexedValue}
    (h : ReadsAs bytes value) (rest : List UInt8) : decode (bytes ++ rest) = .ok (value, rest) := by
  have hread : read (Cursor.ofList (bytes ++ rest)) = .ok value ⟨bytes ++ rest, 0 + bytes.length⟩ :=
    Takes.of_remaining h 0 _ (Stands.start bytes rest)
  have hrest : Cursor.rest ⟨bytes ++ rest, 0 + bytes.length⟩ = rest := by
    rw [Cursor.rest, Nat.zero_add, List.drop_left]
  rw [decode, hread]
  exact congrArg (fun after => Except.ok (value, after)) hrest

namespace EncodedValue

variable {ix : Indexer}

/-- **No two readings**: if bytes start with the encodings of two values, these are the same up to
what the indexer gives the same index, and so is what follows. -/
theorem indexed_of_encode_append {v v' : EncodedValue} {bytes bytes' rest rest' : List UInt8}
    (h : v.encode ix = .ok bytes) (h' : v'.encode ix = .ok bytes')
    (heq : bytes ++ rest = bytes' ++ rest') : v.indexed ix = v'.indexed ix ∧ rest = rest' := by
  obtain ⟨w, hw, hreads⟩ := takes_parts v h
  obtain ⟨w', hw', hreads'⟩ := takes_parts v' h'
  have hdecode := IndexedValue.decode_append hreads rest
  rw [heq, IndexedValue.decode_append hreads' rest'] at hdecode
  obtain ⟨rfl, rfl⟩ := Prod.mk.inj (Except.ok.inj hdecode)
  exact ⟨hw.trans hw'.symm, rfl⟩

/-- **Values read back**: a value that can be written is found again at the start of its bytes, with
the index of each reference in its place, and nothing of what comes after is touched. -/
theorem value_reads_back {v : EncodedValue} {bytes : List UInt8} (h : v.encode ix = .ok bytes) :
    ∃ w, v.indexed ix = .ok w ∧
      ∀ rest, IndexedValue.decode (bytes ++ rest) = .ok (w, rest) := by
  obtain ⟨w, hw, hreads⟩ := takes_parts v h
  exact ⟨w, hw, IndexedValue.decode_append hreads⟩

/-- An annotation with numbers whose payloads are cut short: a negative one, a zero with a sign, one
without, and indices of one, two and three bytes. -/
def levels : EncodedValue :=
  .annotationValue ⟨"LLevels;",
    [("all", .array [.short (-2), .float 0x80000000, .double 0, .char 0xFF, .boolean true]),
      ("none", .null), ("first", .enum ⟨"LLevel;", "LOW", "LLevel;"⟩)]⟩

/-- The indices of what the annotation refers to. -/
def levelIndices : Indexer
  | .type _ => .ok 7
  | .string _ => .ok 300
  | .field _ => .ok 70000
  | r => Indexer.dangling r

theorem value_reads_back_levels :
    levels.encode levelIndices = .ok [0x1D, 7, 3, 0xAC, 2, 0x1C, 5, 0x02, 0xFE, 0x10, 0x80, 0x11, 0,
        0x03, 0xFF, 0x3F, 0xAC, 2, 0x1E, 0xAC, 2, 0x5B, 0x70, 0x11, 1] ∧
      ∃ w, levels.indexed levelIndices = .ok w ∧ ∀ rest,
        IndexedValue.decode ([0x1D, 7, 3, 0xAC, 2, 0x1C, 5, 0x02, 0xFE, 0x10, 0x80, 0x11, 0,
          0x03, 0xFF, 0x3F, 0xAC, 2, 0x1E, 0xAC, 2, 0x5B, 0x70, 0x11, 1] ++ rest) = .ok (w, rest) :=
  ⟨by decide +kernel, value_reads_back (by decide +kernel)⟩

end EncodedValue

end Dalvik
