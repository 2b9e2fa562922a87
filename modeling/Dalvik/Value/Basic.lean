/-
# Constants and annotations

An encoded value is a typed constant: the initial value of a static field, or an element of an
annotation.  Values nest through arrays and through annotations.  Floating-point numbers are carried
as their bits, so that two of them are the same exactly if they are written the same.
-/
import Dalvik.Reference.Basic

namespace Dalvik

/-! ## 1. Types of values -/

/-- The type of an encoded value. -/
inductive ValueType where
  | byte
  | short
  | char
  | int
  | long
  | float
  | double
  | methodType
  | methodHandle
  | string
  | type
  | field
  | method
  | enum
  | array
  | annotationValue
  | null
  | boolean
  deriving DecidableEq, Repr, Inhabited

namespace ValueType

/-- The five bits that stand for the type. -/
def code : ValueType → Nat
  | byte => 0x00
  | short => 0x02
  | char => 0x03
  | int => 0x04
  | long => 0x06
  | float => 0x10
  | double => 0x11
  | methodType => 0x15
  | methodHandle => 0x16
  | string => 0x17
  | type => 0x18
  | field => 0x19
  | method => 0x1A
  | enum => 0x1B
  | array => 0x1C
  | annotationValue => 0x1D
  | null => 0x1E
  | boolean => 0x1F

/-- The name of the type. -/
def text : ValueType → String
  | byte => "Byte"
  | short => "Short"
  | char => "Char"
  | int => "Int"
  | long => "Long"
  | float => "Float"
  | double => "Double"
  | methodType => "MethodType"
  | methodHandle => "MethodHandle"
  | string => "String"
  | type => "Type"
  | field => "Field"
  | method => "Method"
  | enum => "Enum"
  | array => "Array"
  | annotationValue => "Annotation"
  | null => "Null"
  | boolean => "Boolean"

/-- Every type. -/
def all : List ValueType :=
  [byte, short, char, int, long, float, double, methodType, methodHandle, string, type, field,
    method, enum, array, annotationValue, null, boolean]

/-- The type that a code stands for. -/
def ofCode? (code : Nat) : Option ValueType :=
  all.find? fun t => t.code == code

/-- No code needs more than five bits. -/
theorem code_lt (t : ValueType) : t.code < 32 := by
  cases t <;> decide

@[simp] theorem ofCode?_code (t : ValueType) : ofCode? t.code = some t := by
  cases t <;> decide

end ValueType

/-! ## 2. Values -/

mutual

/-- A typed constant. -/
inductive EncodedValue where
  | byte (value : Int8)
  | short (value : Int16)
  | char (unit : UInt16)
  | int (value : Int32)
  | long (value : Int64)
  | float (bits : UInt32)
  | double (bits : UInt64)
  | methodType (proto : Proto)
  | methodHandle (index : UInt32)
  | string (value : String)
  | type (descriptor : String)
  | field (field : FieldRef)
  | method (method : MethodRef)
  /-- A constant of an enumeration, named by its field. -/
  | enum (field : FieldRef)
  | array (values : List EncodedValue)
  | annotationValue (content : EncodedAnnotation)
  | null
  | boolean (value : Bool)

/-- An annotation type with its named elements, in order. -/
structure EncodedAnnotation where
  type : String
  elements : List (String × EncodedValue)

end

deriving instance Inhabited for EncodedValue
deriving instance Inhabited for EncodedAnnotation

namespace EncodedValue

/-- The type of a value (`value_type`). -/
def valueType : EncodedValue → ValueType
  | byte _ => .byte
  | short _ => .short
  | char _ => .char
  | int _ => .int
  | long _ => .long
  | float _ => .float
  | double _ => .double
  | methodType _ => .methodType
  | methodHandle _ => .methodHandle
  | string _ => .string
  | type _ => .type
  | field _ => .field
  | method _ => .method
  | enum _ => .enum
  | array _ => .array
  | annotationValue _ => .annotationValue
  | null => .null
  | boolean _ => .boolean

/-- The zero of a type, for a static field that has no value of its own. -/
def zeroOf (first : Option UInt8) : EncodedValue :=
  match first.map fun b => Char.ofNat b.toNat with
  | some 'Z' => boolean false
  | some 'B' => byte 0
  | some 'S' => short 0
  | some 'C' => char 0
  | some 'I' => int 0
  | some 'J' => long 0
  | some 'F' => float 0
  | some 'D' => double 0
  | _ => null

end EncodedValue

/-! ## 3. Values inside values -/

mutual

/-- The value and all values inside it, each before those inside it (`visit`). -/
def EncodedValue.subvalues : EncodedValue → List EncodedValue
  | .array values => .array values :: EncodedValue.subvaluesOfAll values
  | .annotationValue a => .annotationValue a :: a.subvalues
  | value => [value]
termination_by structural value => value

/-- All values inside an annotation. -/
def EncodedAnnotation.subvalues : EncodedAnnotation → List EncodedValue
  | ⟨_, elements⟩ => EncodedValue.subvaluesOfElements elements
termination_by structural a => a

/-- The values of a list and all values inside them. -/
def EncodedValue.subvaluesOfAll : List EncodedValue → List EncodedValue
  | [] => []
  | value :: rest => value.subvalues ++ EncodedValue.subvaluesOfAll rest
termination_by structural values => values

/-- The values of elements and all values inside them. -/
def EncodedValue.subvaluesOfElements : List (String × EncodedValue) → List EncodedValue
  | [] => []
  | (_, value) :: rest => value.subvalues ++ EncodedValue.subvaluesOfElements rest
termination_by structural elements => elements

end

/-! ## 4. Attached annotations -/

/-- Where an annotation is visible. -/
inductive Visibility where
  /-- While building only. -/
  | build
  /-- To the running program. -/
  | runtime
  /-- To the runtime system only. -/
  | system
  deriving DecidableEq, Repr, Inhabited

namespace Visibility

/-- The byte that stands for the visibility. -/
def code : Visibility → UInt8
  | build => 0
  | runtime => 1
  | system => 2

/-- The name of the visibility. -/
def text : Visibility → String
  | build => "Build"
  | runtime => "Runtime"
  | system => "System"

/-- The visibility that a code stands for. -/
def ofCode? (code : Nat) : Option Visibility :=
  [build, runtime, system].find? fun v => v.code.toNat == code

end Visibility

/-- An annotation attached to a class, a member or a parameter. -/
structure Annotation where
  visibility : Visibility
  content : EncodedAnnotation
  deriving Inhabited

/-- The type of an attached annotation. -/
def Annotation.type (a : Annotation) : String :=
  a.content.type

end Dalvik
