/-
# The bytes of a value

A value begins with a byte that holds its type in five bits and an argument in three.  For numbers
and indices the argument is the number of bytes that follow, less one: as many as are needed to get
the number back by extending it, at the high end by the sign or by zeros, or, for floating-point
numbers, at the low end by zeros.  A boolean is its argument.
-/
import Dalvik.Bytes.Parts
import Dalvik.Reference.Indexer
import Dalvik.Value.Basic

namespace Dalvik

namespace EncodedValue

/-! ## 1. Shortest payloads -/

/-- Whether the highest byte of a signed number only repeats the sign of the byte below it. -/
def isSurplus (top next : UInt8) : Bool :=
  (top == 0x00 && next &&& 0x80 == 0) || (top == 0xFF && next &&& 0x80 != 0)

/-- The bytes of a signed number, highest first, without those at the high end that only repeat the
sign. -/
def dropSurplus : List UInt8 → List UInt8
  | top :: next :: rest =>
    if isSurplus top next then dropSurplus (next :: rest) else top :: next :: rest
  | bytes => bytes

/-- The shortest bytes that the sign extends to the number (`write_signed`). -/
def signedPayload (value : Int64) : List UInt8 :=
  (dropSurplus (LittleEndian.encode value).reverse).reverse

/-- The number of bytes up to the highest that is not zero, or one. -/
def unsignedLength (bytes : List UInt8) : Nat :=
  match bytes.reverse.findIdx? (· != 0) with
  | some zeros => bytes.length - zeros
  | none => 1

/-- The shortest bytes, at least one, that zeros extend to the number (`write_unsigned`). -/
def unsignedPayload (value : UInt64) : List UInt8 :=
  let bytes := LittleEndian.encode value
  bytes.take (unsignedLength bytes)

/-- The number of zero bytes at the low end, leaving one byte. -/
def lowZeros (data : List UInt8) : Nat :=
  (data.findIdx? (· != 0)).getD (data.length - 1)

/-- The shortest high bytes, at least one, from which only zeros are missing at the low end
(`write_right_zero_extended`). -/
def highPayload (data : List UInt8) : List UInt8 :=
  data.drop (lowZeros data)

/-! ## 2. Parts -/

/-- The first byte of a value: the argument in three bits, and the type in five (`header`). -/
def headerByte (t : ValueType) (argument : UInt8) : UInt8 :=
  argument <<< 5 ||| t.code.toUInt8

/-- The first byte of a value with a payload, and the payload (`push_payload`). -/
def withPayload (t : ValueType) (payload : List UInt8) : Part :=
  .ok (headerByte t (payload.length - 1).toUInt8 :: payload)

/-- The index of a reference as a value. -/
def indexPart (ix : Indexer) (t : ValueType) (r : Reference) : Part := do
  withPayload t (unsignedPayload (← ix r).toUInt64)

end EncodedValue

open EncodedValue in
mutual

/-- The parts of a value. -/
def EncodedValue.parts (ix : Indexer) : EncodedValue → List Part
  | .byte value => [.ok [headerByte .byte 0, value.toUInt8]]
  | .short value => [withPayload .short (signedPayload value.toInt64)]
  | .char unit => [withPayload .char (unsignedPayload unit.toUInt64)]
  | .int value => [withPayload .int (signedPayload value.toInt64)]
  | .long value => [withPayload .long (signedPayload value)]
  | .float bits => [withPayload .float (highPayload (LittleEndian.encode bits))]
  | .double bits => [withPayload .double (highPayload (LittleEndian.encode bits))]
  | .methodType proto => [indexPart ix .methodType (.proto proto)]
  | .methodHandle index => [indexPart ix .methodHandle (.methodHandle index)]
  | .string value => [indexPart ix .string (.string value)]
  | .type descriptor => [indexPart ix .type (.type descriptor)]
  | .field f => [indexPart ix .field (.field f)]
  | .method m => [indexPart ix .method (.method m)]
  | .enum f => [indexPart ix .enum (.field f)]
  | .array values =>
    .ok [headerByte .array 0] :: Part.count values.length :: EncodedValue.partsOfAll ix values
  | .annotationValue a => .ok [headerByte .annotationValue 0] :: a.parts ix
  | .null => [.ok [headerByte .null 0]]
  | .boolean value => [.ok [headerByte .boolean (if value then 1 else 0)]]
termination_by structural value => value

/-- The parts of an annotation: its type, the number of elements, and each name and value. -/
def EncodedAnnotation.parts (ix : Indexer) : EncodedAnnotation → List Part
  | ⟨descriptor, elements⟩ =>
    Part.uleb128 (ix (.type descriptor)) :: Part.count elements.length ::
      EncodedValue.partsOfElements ix elements
termination_by structural a => a

/-- The parts of the values of a list. -/
def EncodedValue.partsOfAll (ix : Indexer) : List EncodedValue → List Part
  | [] => []
  | value :: rest => value.parts ix ++ EncodedValue.partsOfAll ix rest
termination_by structural values => values

/-- The parts of named elements. -/
def EncodedValue.partsOfElements (ix : Indexer) : List (String × EncodedValue) → List Part
  | [] => []
  | (name, value) :: rest =>
    Part.uleb128 (ix (.string name)) :: (value.parts ix ++ EncodedValue.partsOfElements ix rest)
termination_by structural elements => elements

end

namespace EncodedValue

/-- The bytes of a value (`encode`). -/
def encode (ix : Indexer) (value : EncodedValue) : Except Error (List UInt8) :=
  Part.joined (value.parts ix)

/-- The parts of an array on its own: the number of values, and the values. -/
def arrayParts (ix : Indexer) (values : List EncodedValue) : List Part :=
  Part.count values.length :: EncodedValue.partsOfAll ix values

/-- The bytes of an array on its own (`encode_array`). -/
def encodeArray (ix : Indexer) (values : List EncodedValue) : Except Error (List UInt8) :=
  Part.joined (arrayParts ix values)

end EncodedValue

namespace Annotation

/-- The parts of an annotation item: the visibility, and the annotation. -/
def parts (ix : Indexer) (a : Annotation) : List Part :=
  .ok [a.visibility.code] :: a.content.parts ix

/-- The bytes of an annotation item (`encode`). -/
def encode (ix : Indexer) (a : Annotation) : Except Error (List UInt8) :=
  Part.joined (a.parts ix)

end Annotation

end Dalvik
