/-
# Annotations in a container

Annotations are written in four layers, each of which refers to the one before by offset: the
annotations themselves, sets of annotations, lists of sets for the parameters of a method, and for
each class a directory of the sets of the class and its members.

A layer either is written whole, and then the catalog knows the offsets of its items, or fails.
Classes without annotated members share their directories if they have the same set.
-/
import Dalvik.Container.Catalog
import Dalvik.Container.Stream
import Dalvik.Value.Encode

namespace Dalvik

namespace Catalog

/-! ## 1. Annotations, sets and lists of sets -/

/-- A word that may not be known. -/
def wordPart (word : Except Error UInt32) : Part :=
  word.map LittleEndian.encode

/-- A count and words. -/
def tableParts (words : List (Except Error UInt32)) : List Part :=
  wordPart (Bytes.narrow32 words.length) :: words.map wordPart

/-- Appends the annotations (`write_annotation_items`). -/
def writeAnnotations (c : Catalog) : StreamWriter Catalog := do
  let offsets ← Stream.items 1 (c.annotations.items.map fun a => a.parts c.indexer)
  return { c with annotations := c.annotations.setOffsets offsets }

/-- The parts of a set: the offsets of its annotations. -/
def setParts (c : Catalog) (set : List Annotation) : List Part :=
  tableParts (set.map c.annotations.offsetOf)

/-- Appends the annotation sets (`write_annotation_sets`). -/
def writeSets (c : Catalog) : StreamWriter Catalog := do
  let offsets ← Stream.items 4 (c.annotationSets.items.map c.setParts)
  return { c with annotationSets := c.annotationSets.setOffsets offsets }

/-- The offset of the empty set, which is zero if the catalog has none. -/
def emptySetOffset (c : Catalog) : UInt32 :=
  ((c.annotationSets.index? []).bind c.annotationSets.offsetAt?).getD 0

/-- The parts of a list of sets: their offsets. -/
def setListParts (c : Catalog) (sets : List (List Annotation)) : List Part :=
  tableParts (sets.map fun set =>
    if set.isEmpty then .ok c.emptySetOffset else c.annotationSets.offsetOf set)

/-- Appends the lists of sets (`write_annotation_set_ref_lists`). -/
def writeSetLists (c : Catalog) : StreamWriter Catalog := do
  let offsets ← Stream.items 4 (c.setLists.items.map c.setListParts)
  return { c with setLists := c.setLists.setOffsets offsets }

/-! ## 2. Directories -/

/-- The offset of the set of some annotations, whatever their order. -/
def setOffsetOf (c : Catalog) (annotations : List Annotation) : Except Error UInt32 :=
  c.annotationSets.offsetOf (AnnotationSet.sorted annotations)

/-- A member in a directory: its index, and the offset of what is attached to it. -/
abbrev Attached := UInt32 × UInt32

/-- The annotated fields of a class. -/
def attachedFields (c : Catalog) (d : ClassDef) : Except Error (List Attached) :=
  (d.fields.filter fun f => !f.annotations.isEmpty).mapM fun f => do
    return (← c.indexer (.field (d.fieldRef f)), ← c.setOffsetOf f.annotations)

/-- The offset of the set of a method, if it is annotated. -/
def ownSet? (c : Catalog) (m : Method) : Except Error (Option UInt32) :=
  if m.annotations.isEmpty then .ok none
  else (c.setOffsetOf m.annotations).map some

/-- The offset of the list of sets of a method, if its parameters are annotated. -/
def parameterSets? (c : Catalog) (m : Method) : Except Error (Option UInt32) :=
  if m.hasParameterAnnotations then
    (c.setLists.offsetOf (m.parameterAnnotations.map AnnotationSet.sorted)).map some
  else
    .ok none

/-- A method if it is annotated, and again if its parameters are. -/
def attachedMethod (c : Catalog) (d : ClassDef) (m : Method) :
    Except Error (Option Attached × Option Attached) := do
  let index ← c.indexer (.method (d.methodRef m))
  let own ← c.ownSet? m
  let parameters ← c.parameterSets? m
  return (own.map (index, ·), parameters.map (index, ·))

/-- Members in the order of their indices; at one index, of the offsets. -/
def sortAttached (members : List Attached) : List Attached :=
  members.mergeSort fun a b => a.1 < b.1 || a.1 == b.1 && a.2 ≤ b.2

/-- The bytes of a directory: the set of the class, three counts, and the members
(`write_directory`). -/
def directory (c : Catalog) (classSet : UInt32) (d : ClassDef) : Part := do
  let fields ← c.attachedFields d
  let methods ← d.methods.mapM (c.attachedMethod d)
  let groups := [fields, methods.filterMap (·.1), methods.filterMap (·.2)]
  let counts ← groups.mapM fun g => Bytes.narrow32 g.length
  let members := (groups.map sortAttached).flatten.flatMap fun (index, offset) => [index, offset]
  return (classSet :: counts ++ members).flatMap LittleEndian.encode

/-- Where the directories of classes are. -/
structure Directories where
  /-- For each class the offset of its directory, which is zero if it has none. -/
  offsets : List UInt32 := []
  /-- The number of directories, shared ones counted once. -/
  written : Nat := 0
  deriving Repr, DecidableEq, Inhabited

/-- The directories of one class more, which has no directory of its own. -/
def Directories.reuse (offset : UInt32) (later : Directories) : Directories :=
  { later with offsets := offset :: later.offsets }

/-- The directories of one class more, which has one of its own. -/
def Directories.add (offset : UInt32) (later : Directories) : Directories where
  offsets := offset :: later.offsets
  written := later.written + 1

/-- Appends the directories of classes; `shared` are those of earlier classes without annotated
members, by their sets. -/
def writeDirectoriesOf (c : Catalog) (shared : List (UInt32 × UInt32)) :
    List ClassDef → StreamWriter Directories
  | [] => return {}
  | d :: rest => do
    let classSet ← if d.annotations.isEmpty then pure 0 else c.setOffsetOf d.annotations
    if d.hasMemberAnnotations then
      let offset ← Stream.item 4 [c.directory classSet d]
      return .add offset (← writeDirectoriesOf c shared rest)
    else if classSet == 0 then
      return .reuse 0 (← writeDirectoriesOf c shared rest)
    else
      match shared.lookup classSet with
      | some offset => return .reuse offset (← writeDirectoriesOf c shared rest)
      | none =>
        let offset ← Stream.item 4 [c.directory classSet d]
        return .add offset (← writeDirectoriesOf c ((classSet, offset) :: shared) rest)

/-- Appends the directories of all classes (`write_annotation_directories`). -/
def writeDirectories (c : Catalog) : StreamWriter Directories :=
  c.writeDirectoriesOf [] c.classes

end Catalog

end Dalvik
