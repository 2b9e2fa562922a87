/-
# Classes and their members

A class definition with its fields and methods, as a container is written from it.  A member does
not say which class it belongs to; `ClassDef.fieldRef` and `ClassDef.methodRef` do.

The initial values of static fields are written as one array, in the order in which the fields stand
in the pool: by name, then by type.  The array ends with the last field that has a value; a field
without one before that gets the zero of its type.
-/
import Dalvik.Body.Try
import Dalvik.Class.Access
import Dalvik.Reference.Descriptor
import Dalvik.Text.Utf16
import Dalvik.Value.Basic

namespace Dalvik

/-! ## 1. Members -/

/-- A field as a class defines it. -/
structure Field where
  name : String
  type : String
  flags : AccessFlags := {}
  /-- The initial value, of a static field. -/
  value? : Option EncodedValue := none
  annotations : List Annotation := []
  deriving Inhabited

/-- A method as a class defines it. -/
structure Method where
  name : String
  proto : Proto
  flags : AccessFlags := {}
  /-- The number of registers that the code uses, its arguments among them. -/
  registers : UInt16 := 0
  /-- The code, which abstract and native methods do not have. -/
  body? : Option Body := none
  annotations : List Annotation := []
  /-- The annotations of each parameter. -/
  parameterAnnotations : List (List Annotation) := []
  deriving Inhabited

/-- A class definition. -/
structure ClassDef where
  descriptor : String
  flags : AccessFlags := {}
  superclass? : Option String := none
  interfaces : List String := []
  sourceFile? : Option String := none
  annotations : List Annotation := []
  fields : List Field := []
  methods : List Method := []
  deriving Inhabited

/-- Whether the field belongs to the class and not to its instances (`is_static`). -/
def Field.isStatic (f : Field) : Bool :=
  f.flags.isStatic

/-- The zero of the type of a descriptor. -/
def EncodedValue.zero (descriptor : String) : EncodedValue :=
  EncodedValue.zeroOf (firstByte? descriptor)

namespace Method

/-- Whether the method has no receiver (`is_static`). -/
def isStatic (m : Method) : Bool :=
  m.flags.isStatic

/-- Whether the method is called without looking at the class of the receiver (`is_direct`). -/
def isDirect (m : Method) : Bool :=
  m.flags.isDirect

/-- The number of registers of the arguments: the parameters, and the receiver if there is one
(`ins_count`). -/
def insCount (m : Method) : Except Error UInt16 := do
  let parameters ← m.proto.parameterRegisters
  Bytes.sum16 s!"{m.name} takes more than 65535 argument registers" parameters
    (if m.isStatic then 0 else 1)

/-- Whether any parameter is annotated (`has_parameter_annotations`). -/
def hasParameterAnnotations (m : Method) : Bool :=
  m.parameterAnnotations.any fun set => !set.isEmpty

/-- The method as others refer to it (`reference`). -/
def reference (m : Method) (owner : String) : MethodRef :=
  { owner, name := m.name, proto := m.proto }

end Method

/-! ## 2. Classes -/

namespace ClassDef

/-- A field of the class as others refer to it (`field_ref`). -/
def fieldRef (c : ClassDef) (f : Field) : FieldRef :=
  { owner := c.descriptor, name := f.name, type := f.type }

/-- A method of the class as others refer to it (`method_ref`). -/
def methodRef (c : ClassDef) (m : Method) : MethodRef :=
  m.reference c.descriptor

/-- Whether the class has fields or methods (`has_members`). -/
def hasMembers (c : ClassDef) : Bool :=
  !c.fields.isEmpty || !c.methods.isEmpty

/-- Whether any field, method or parameter of the class is annotated (`has_member_annotations`). -/
def hasMemberAnnotations (c : ClassDef) : Bool :=
  c.fields.any (fun f => !f.annotations.isEmpty) ||
    c.methods.any fun m => !m.annotations.isEmpty || m.hasParameterAnnotations

/-! ## 3. Static values -/

/-- The order of the fields of one class in the field pool. -/
def fieldLE (f g : Field) : Bool :=
  ((Text.compareUnits f.name g.name).then (Text.compareUnits f.type g.type)).isLE

/-- The static fields in the order of the pool (`sorted_static_fields`). -/
def sortedStaticFields (c : ClassDef) : List Field :=
  (c.fields.filter (·.isStatic)).mergeSort fieldLE

/-- **The initial values** of the static fields in the order of the pool, up to the last one given
(`static_values`). -/
def staticValues (c : ClassDef) : List EncodedValue :=
  let fields := c.sortedStaticFields
  let upToLast := (fields.reverse.dropWhile fun f => f.value?.isNone).reverse
  upToLast.map fun f => f.value?.getD (.zero f.type)

end ClassDef

end Dalvik
