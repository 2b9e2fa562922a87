/-
# What a container has to hold

A class names strings, types, prototypes, fields and methods, and each of those may name others: a
method names its class, its name and its prototype, a prototype its types and its short form, a type
its descriptor.  `Entity` is one such thing, or an item that is shared by content.
-/
import Dalvik.Class.Basic

namespace Dalvik

/-- Something that a container holds once, however often it is named. -/
inductive Entity where
  | string (value : String)
  | type (descriptor : String)
  | proto (proto : Proto)
  | field (field : FieldRef)
  | method (method : MethodRef)
  /-- The types of parameters, or the interfaces of a class; not empty. -/
  | typeList (descriptors : List String)
  /-- The initial values of static fields. -/
  | encodedArray (values : List EncodedValue)
  | annotationItem (content : Annotation)
  /-- Annotations in the order of their types. -/
  | annotationSet (annotations : List Annotation)
  /-- The annotation sets of the parameters of a method. -/
  | setList (sets : List (List Annotation))

/-- The annotations of a set in the order of their types (`sorted_set`). -/
def AnnotationSet.sorted (annotations : List Annotation) : List Annotation :=
  annotations.mergeSort fun a b => Text.unitsLE a.type b.type

end Dalvik
