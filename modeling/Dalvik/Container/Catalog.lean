/-
# The catalog of a container

A catalog holds everything that the classes of a container need, each thing once: five pools, whose
items have indices, and five kinds of items that have offsets instead.  Once it is frozen, the pools
are in the order of the format, and the catalog gives references their indices.

The order of the pools: strings and types by UTF-16 code units; prototypes by the index of the
return type, then of the parameter types; fields by the indices of class, name and type; methods by
the indices of class, name and prototype.
-/
import Dalvik.Container.Entity
import Dalvik.Container.Pool
import Dalvik.Container.Shared
import Dalvik.Reference.Indexer
import Dalvik.Value.Key

namespace Dalvik

/-- All that a container holds (`SectionManager`). -/
structure Catalog where
  strings : Pool String := { name := "string" }
  types : Pool String := { name := "type" }
  protos : Pool Proto := { name := "proto" }
  fields : Pool FieldRef := { name := "field" }
  methods : Pool MethodRef := { name := "method" }
  typeLists : SharedItems (List String) := { name := "type list" }
  encodedArrays : SharedItems (List EncodedValue) := { name := "encoded array" }
  annotations : SharedItems Annotation := { name := "annotation" }
  annotationSets : SharedItems (List Annotation) := { name := "annotation set" }
  /-- The annotation sets of parameters, one list for a method. -/
  setLists : SharedItems (List (List Annotation)) := { name := "annotation set ref list" }
  /-- The classes in the order of writing. -/
  classes : List ClassDef := []
  deriving Inhabited

namespace Catalog

/-! ## 1. Collecting -/

/-- Adds one thing if it is new. -/
def insert (c : Catalog) : Entity → Except Error Catalog
  | .string value => return { c with strings := (← c.strings.add value).1 }
  | .type descriptor => return { c with types := (← c.types.add descriptor).1 }
  | .proto p => return { c with protos := (← c.protos.add p).1 }
  | .field f => return { c with fields := (← c.fields.add f).1 }
  | .method m => return { c with methods := (← c.methods.add m).1 }
  | .typeList descriptors => return { c with typeLists := (← c.typeLists.intern descriptors).1 }
  | .encodedArray values => return { c with encodedArrays := (← c.encodedArrays.intern values).1 }
  | .annotationItem a => return { c with annotations := (← c.annotations.intern a).1 }
  | .annotationSet set => return { c with annotationSets := (← c.annotationSets.intern set).1 }
  | .setList sets => return { c with setLists := (← c.setLists.intern sets).1 }

/-! ## 2. Indices -/

/-- The place of a reference in its pool. -/
def place? (c : Catalog) : Reference → Option Nat
  | .string value => c.strings.index? value
  | .type descriptor => c.types.index? descriptor
  | .proto p => c.protos.index? p
  | .field f => c.fields.index? f
  | .method m => c.methods.index? m
  | .callSite _ | .methodHandle _ | .raw _ _ => none

/-- The catalog as an indexer. -/
def indexer (c : Catalog) : Indexer := fun r =>
  match c.place? r with
  | some place => .ok place.toUInt32
  | none => Indexer.dangling r

/-! ## 3. Freezing -/

/-- The place of a reference for sorting; one without a place comes last. -/
def rank (c : Catalog) (r : Reference) : Nat :=
  (c.place? r).getD 0xFFFFFFFF

/-- The order of prototypes. -/
def protoRank (c : Catalog) (p : Proto) : List Nat :=
  c.rank (.type p.returnType) :: p.parameters.map fun descriptor => c.rank (.type descriptor)

/-- The order of fields. -/
def fieldRank (c : Catalog) (f : FieldRef) : List Nat :=
  [c.rank (.type f.owner), c.rank (.string f.name), c.rank (.type f.type)]

/-- The order of methods. -/
def methodRank (c : Catalog) (m : MethodRef) : List Nat :=
  [c.rank (.type m.owner), c.rank (.string m.name), c.rank (.proto m.proto)]

/-- The strings and the types in order. -/
def freezeNames (c : Catalog) : Except Error Catalog := do
  let strings ← c.strings.freezeWith Text.unitsLE
  let types ← c.types.freezeWith Text.unitsLE
  return { c with strings, types }

/-- The prototypes in order, the types being so. -/
def freezeProtos (c : Catalog) : Except Error Catalog := do
  return { c with protos := ← c.protos.freezeBy c.protoRank }

/-- The fields and the methods in order, what they name being so. -/
def freezeMembers (c : Catalog) : Except Error Catalog := do
  let fields ← c.fields.freezeBy c.fieldRank
  let methods ← c.methods.freezeBy c.methodRank
  return { c with fields, methods }

/-- The items that have offsets. -/
def freezeItems (c : Catalog) : Catalog :=
  { c with
    typeLists := c.typeLists.freeze
    encodedArrays := c.encodedArrays.freeze
    annotations := c.annotations.freeze
    annotationSets := c.annotationSets.freeze
    setLists := c.setLists.freeze }

/-- **Freezing.**  Brings the pools into the order of the format, each step by the places that the
one before has given (`freeze`); nothing new is accepted then. -/
def freeze (c : Catalog) : Except Error Catalog := do
  let named ← c.freezeNames
  let ranked ← named.freezeProtos
  let indexed ← ranked.freezeMembers
  return indexed.freezeItems

end Catalog

end Dalvik
