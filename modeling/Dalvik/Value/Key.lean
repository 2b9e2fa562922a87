/-
# Structural keys of values

The key of a value is the code of its type and the key of its contents; numbers contribute their
fixed-width form, so a value of one type is never mistaken for one of another.
-/
import Dalvik.Key
import Dalvik.Value.Basic

namespace Dalvik

open EncodedValue in
mutual

/-- The key of a value (`write_key`). -/
def EncodedValue.structuralKey : EncodedValue → List UInt8
  | .byte value => ValueType.byte.code.toUInt8 :: LittleEndian.encode value
  | .short value => ValueType.short.code.toUInt8 :: LittleEndian.encode value
  | .char unit => ValueType.char.code.toUInt8 :: LittleEndian.encode unit
  | .int value => ValueType.int.code.toUInt8 :: LittleEndian.encode value
  | .long value => ValueType.long.code.toUInt8 :: LittleEndian.encode value
  | .float bits => ValueType.float.code.toUInt8 :: LittleEndian.encode bits
  | .double bits => ValueType.double.code.toUInt8 :: LittleEndian.encode bits
  | .methodType proto => ValueType.methodType.code.toUInt8 :: key proto
  | .methodHandle index => ValueType.methodHandle.code.toUInt8 :: key index
  | .string value => ValueType.string.code.toUInt8 :: key value
  | .type descriptor => ValueType.type.code.toUInt8 :: key descriptor
  | .field f => ValueType.field.code.toUInt8 :: key f
  | .method m => ValueType.method.code.toUInt8 :: key m
  | .enum f => ValueType.enum.code.toUInt8 :: key f
  | .array values =>
    ValueType.array.code.toUInt8 :: (Keyed.count values.length ++ EncodedValue.keyOfAll values)
  | .annotationValue a => ValueType.annotationValue.code.toUInt8 :: a.structuralKey
  | .null => [ValueType.null.code.toUInt8]
  | .boolean value => [ValueType.boolean.code.toUInt8, if value then 1 else 0]
termination_by structural value => value

/-- The key of an annotation (`write_key`). -/
def EncodedAnnotation.structuralKey : EncodedAnnotation → List UInt8
  | ⟨descriptor, elements⟩ =>
    key descriptor ++ (Keyed.count elements.length ++ EncodedValue.keyOfElements elements)
termination_by structural a => a

/-- The keys of the values of a list. -/
def EncodedValue.keyOfAll : List EncodedValue → List UInt8
  | [] => []
  | value :: rest => value.structuralKey ++ EncodedValue.keyOfAll rest
termination_by structural values => values

/-- The keys of named elements. -/
def EncodedValue.keyOfElements : List (String × EncodedValue) → List UInt8
  | [] => []
  | (name, value) :: rest => key name ++ (value.structuralKey ++ EncodedValue.keyOfElements rest)
termination_by structural elements => elements

end

instance : Keyed EncodedValue where
  key := EncodedValue.structuralKey

instance : Keyed EncodedAnnotation where
  key := EncodedAnnotation.structuralKey

instance : Keyed Annotation where
  key a := a.visibility.code :: key a.content

end Dalvik
