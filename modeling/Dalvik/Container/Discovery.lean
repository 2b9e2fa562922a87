/-
# Discovery

The walk that collects a catalog from classes.  Adding a thing adds all that it names: a method its
class, its name and its prototype, a prototype its short form, its types and the list of its
parameters, a type its descriptor.  A type, a prototype, a field or a method that the catalog has
already is passed over together with all that it names.

Things are added by steps that change the catalog in place, the thing before what it names.  The
walk over classes gives up the catalog with the first step that fails, and goes from catalog to
catalog.

Bare indices, call sites and method handles add nothing, because nothing here could provide for
them.
-/
import Dalvik.Container.Catalog
import Dalvik.Container.ClassOrder
import Dalvik.Container.Options

namespace Dalvik

/-- A step that adds to a catalog; one that fails leaves behind what it has added. -/
abbrev Collector := EStateM Error Catalog

namespace Collector

/-- What a step makes of a catalog that is given up if it fails. -/
def outcome {α : Type} (step : Collector α) (c : Catalog) : Except Error Catalog :=
  match step c with
  | .ok _ c' => .ok c'
  | .error cause _ => .error cause

/-! ## 1. References -/

/-- Adds one thing if it is new. -/
def insert (e : Entity) : Collector Unit := do
  set (← (← get).insert e)

/-- Adds a type and its descriptor (`add_type`). -/
def addType (descriptor : String) : Collector Unit := do
  if ((← get).types.index? descriptor).isSome then
    pure ()
  else
    insert (.type descriptor)
    insert (.string descriptor)

/-- Adds types, and their list unless there are none (`add_type_list`). -/
def addTypeList (descriptors : List String) : Collector Unit := do
  descriptors.forM addType
  if descriptors.isEmpty then pure () else insert (.typeList descriptors)

/-- Adds a prototype, its short form and its types (`add_proto`). -/
def addProto (p : Proto) : Collector Unit := do
  if ((← get).protos.index? p).isSome then
    pure ()
  else
    insert (.proto p)
    insert (.string p.shorty)
    addType p.returnType
    addTypeList p.parameters

/-- Adds a field, its class, its name and its type (`add_field`). -/
def addField (f : FieldRef) : Collector Unit := do
  if ((← get).fields.index? f).isSome then
    pure ()
  else
    insert (.field f)
    addType f.owner
    insert (.string f.name)
    addType f.type

/-- Adds a method, its class, its name and its prototype (`add_method`). -/
def addMethod (m : MethodRef) : Collector Unit := do
  if ((← get).methods.index? m).isSome then
    pure ()
  else
    insert (.method m)
    addType m.owner
    insert (.string m.name)
    addProto m.proto

/-- Adds what a reference names (`add_reference`). -/
def addReference : Reference → Collector Unit
  | .string value => insert (.string value)
  | .type descriptor => addType descriptor
  | .field f => addField f
  | .method m => addMethod m
  | .proto p => addProto p
  | .callSite _ | .methodHandle _ | .raw _ _ => pure ()

/-! ## 2. Values and annotations -/

/-- Adds what a value names itself, without the values inside it (`add_value_shallow`). -/
def addValueAlone : EncodedValue → Collector Unit
  | .string value => insert (.string value)
  | .type descriptor => addType descriptor
  | .field f | .enum f => addField f
  | .method m => addMethod m
  | .methodType p => addProto p
  | .annotationValue a => do
    addType a.type
    a.elements.forM fun (name, _) => insert (.string name)
  | _ => pure ()

/-- Adds what a value and all values inside it name (`add_value`). -/
def addValue (value : EncodedValue) : Collector Unit :=
  value.subvalues.forM addValueAlone

/-- Adds what an element of an annotation names. -/
def addElement (element : String × EncodedValue) : Collector Unit := do
  insert (.string element.1)
  addValue element.2

/-- Adds what an annotation names, and the annotation (`add_annotation`). -/
def addAnnotation (a : Annotation) : Collector Unit := do
  addType a.type
  a.content.elements.forM addElement
  insert (.annotationItem a)

/-- Adds annotations, and their set unless there are none. -/
def addAnnotations (annotations : List Annotation) : Collector Unit := do
  annotations.forM addAnnotation
  if annotations.isEmpty then pure ()
  else insert (.annotationSet (AnnotationSet.sorted annotations))

/-- Adds annotations, and answers their set (`add_annotation_set`). -/
def addSet (annotations : List Annotation) : Collector (List Annotation) := do
  addAnnotations annotations
  return AnnotationSet.sorted annotations

/-- Adds what initial values name, and their array unless there are none. -/
def addStaticValues (values : List EncodedValue) : Collector Unit := do
  if values.isEmpty then
    pure ()
  else
    values.forM addValue
    insert (.encodedArray values)

end Collector

namespace Catalog

/-- The catalog with a type. -/
def addType (c : Catalog) (descriptor : String) : Except Error Catalog :=
  (Collector.addType descriptor).outcome c

/-- The catalog with a list of types. -/
def addTypeList (c : Catalog) (descriptors : List String) : Except Error Catalog :=
  (Collector.addTypeList descriptors).outcome c

/-- The catalog with a field. -/
def addField (c : Catalog) (f : FieldRef) : Except Error Catalog :=
  (Collector.addField f).outcome c

/-- The catalog with a method. -/
def addMethod (c : Catalog) (m : MethodRef) : Except Error Catalog :=
  (Collector.addMethod m).outcome c

/-- The catalog with what a reference names. -/
def addReference (c : Catalog) (r : Reference) : Except Error Catalog :=
  (Collector.addReference r).outcome c

/-- The catalog with annotations. -/
def addSet (c : Catalog) (annotations : List Annotation) : Except Error Catalog :=
  (Collector.addSet annotations).outcome c

/-- The catalog with initial values. -/
def addStaticValues (c : Catalog) (values : List EncodedValue) : Except Error Catalog :=
  (Collector.addStaticValues values).outcome c

/-! ## 3. Members -/

/-- Adds members, of which none may refer to what an earlier one refers to. -/
def addMembers {α ρ : Type} [BEq ρ] (reference : α → ρ) (twice : ρ → Error)
    (add : Catalog → α → Except Error Catalog) (c : Catalog) (seen : List ρ) :
    List α → Except Error Catalog
  | [] => .ok c
  | member :: rest => do
    let r := reference member
    if seen.contains r then throw (twice r)
    let c ← add c member
    addMembers reference twice add c (r :: seen) rest

/-- Adds what a field of a class names. -/
def addFieldOf (d : ClassDef) (c : Catalog) (f : Field) : Except Error Catalog := do
  let c ← c.addField (d.fieldRef f)
  c.addSet f.annotations

/-- Adds what the annotations of parameters name, and their list unless no parameter has any. -/
def addParameters (c : Catalog) (m : Method) : Except Error Catalog :=
  if m.hasParameterAnnotations then do
    let c ← m.parameterAnnotations.foldlM addSet c
    c.insert (.setList (m.parameterAnnotations.map AnnotationSet.sorted))
  else
    .ok c

/-- Adds what an instruction names. -/
def addInstruction (c : Catalog) (i : Instruction) : Except Error Catalog :=
  i.references.foldlM addReference c

/-- Adds the types that the handlers of a range catch. -/
def addTry (c : Catalog) (t : TryRange) : Except Error Catalog :=
  t.handlers.foldlM (fun c h => h.type?.toList.foldlM addType c) c

/-- Adds what the code of a method names. -/
def addBody (c : Catalog) (b : Body) : Except Error Catalog := do
  let c ← b.instructions.foldlM addInstruction c
  b.tries.foldlM addTry c

/-- Adds what a method of a class names. -/
def addMethodOf (d : ClassDef) (c : Catalog) (m : Method) : Except Error Catalog := do
  let c ← c.addMethod (d.methodRef m)
  let c ← c.addSet m.annotations
  let c ← c.addParameters m
  m.body?.toList.foldlM addBody c

/-- A class must not define a field twice. -/
def fieldTwice (f : FieldRef) : Error :=
  .malformed s!"Field {f.text} is defined more than once"

/-- A class must not define a method twice. -/
def methodTwice (m : MethodRef) : Error :=
  .malformed s!"Method {m.text} is defined more than once"

/-! ## 4. Classes -/

/-- Adds what a class names besides its members. -/
def addClassAlone (c : Catalog) (d : ClassDef) : Except Error Catalog := do
  let c ← c.addType d.descriptor
  let c ← d.superclass?.toList.foldlM addType c
  let c ← c.addTypeList d.interfaces
  let c ← d.sourceFile?.toList.foldlM (fun c file => c.insert (.string file)) c
  let c ← c.addSet d.annotations
  c.addStaticValues d.staticValues

/-- Adds all that a class names (`add_class`). -/
def addClass (c : Catalog) (d : ClassDef) : Except Error Catalog := do
  let c ← c.addClassAlone d
  let c ← addMembers d.fieldRef fieldTwice (addFieldOf d) c [] d.fields
  addMembers d.methodRef methodTwice (addMethodOf d) c [] d.methods

/-- Whether any method has annotated parameters. -/
def annotatesParameters (classes : List ClassDef) : Bool :=
  classes.any fun d => d.methods.any (·.hasParameterAnnotations)

/-- Adds the empty set, if it is wanted and a list of sets may refer to it. -/
def addEmptySet (options : Container.Options) (c : Catalog) : Except Error Catalog :=
  if options.emptySet && annotatesParameters c.classes then
    c.insert (.annotationSet [])
  else
    .ok c

/-- **Discovery.**  The frozen catalog of classes (`discover`). -/
def discover (options : Container.Options) (classes : List ClassDef) : Except Error Catalog := do
  let c : Catalog := { classes := ClassDef.inOrder classes }
  let c ← c.addEmptySet options
  let c ← c.classes.foldlM addClass c
  c.freeze

end Catalog

end Dalvik
