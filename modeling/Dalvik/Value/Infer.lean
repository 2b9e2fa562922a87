/-
# Types for untyped values

A value without a type gets the narrowest one that its number admits: whole numbers from zero on are
taken as bits of a byte, a short, an int or a long, so half of the bytes stand for negative numbers
in the encoded form; negative numbers are always long.  Maps have no encoded form.
-/
import Dalvik.Bytes.Signed
import Dalvik.Error
import Dalvik.Value.Basic

namespace Dalvik

/-- A value without an encoded type. -/
inductive UntypedValue where
  | null
  | bool (value : Bool)
  | int (value : Int)
  | float (bits : UInt64)
  | string (value : String)
  | list (values : List UntypedValue)
  | method (method : MethodRef)
  | field (field : FieldRef)
  | annotationValue (content : EncodedAnnotation)
  | map (entries : List (String × UntypedValue))
  deriving Inhabited

namespace UntypedValue

/-- The encoded form of a whole number. -/
def inferInt (value : Int) : Except Error EncodedValue :=
  if 0 ≤ value ∧ value ≤ 0xFF then .ok (.byte (Int8.ofInt value))
  else if 0 ≤ value ∧ value ≤ 0x7FFF then .ok (.short (Int16.ofInt value))
  else if 0 ≤ value ∧ value ≤ 0xFFFFFFFF then .ok (.int (Int32.ofInt value))
  else if fitsSigned 64 value then .ok (.long (Int64.ofInt value))
  else .error (.unsupportedValue s!"integer {value} exceeds 64 bits")

mutual

/-- The encoded form of a value (`infer_type`). -/
def infer : UntypedValue → Except Error EncodedValue
  | null => .ok .null
  | bool value => .ok (.boolean value)
  | int value => inferInt value
  | float bits => .ok (.double bits)
  | string value => .ok (.string value)
  | list values => (inferAll values).map .array
  | method m => .ok (.method m)
  | field f => .ok (.field f)
  | annotationValue a => .ok (.annotationValue a)
  | map entries =>
    .error (.unsupportedValue s!"map with {entries.length} entries has no annotation type")
termination_by structural value => value

/-- The encoded forms of the values of a list; the first failure wins. -/
def inferAll : List UntypedValue → Except Error (List EncodedValue)
  | [] => .ok []
  | value :: rest => do return (← infer value) :: (← inferAll rest)
termination_by structural values => values

end

end UntypedValue

end Dalvik
