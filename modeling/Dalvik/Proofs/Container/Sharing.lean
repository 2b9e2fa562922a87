/-
# Sharing by content

Prototypes and classes with one list of types lead to one type list of the container, classes with
the same initial values to one array, members with the same annotations to one set, and methods
whose parameters are annotated alike to one list of sets.  Whatever differs leads elsewhere.

Both halves are about the lookup by which the writer fills in an offset.  It depends on the content
alone, so what is equal gets one offset.  It finds the item with the same key; keys tell contents
apart, and no two items of a table are at one offset, so what has one offset is equal.

* `SharedBy` says it of any things, and `SharedBy.of_lookup` is the argument;
* `LaidAs.key_eq` is the half about tables: items at one offset have one key;
* `Records` and the relations below it say what a reader finds for prototypes, classes, owners of
  sets, and methods;
* `Written.typeLists_shared`, `staticValues_shared`, `annotations_shared`, `sets_shared` and
  `setLists_shared` are the statements for five kinds of item.
-/
import Dalvik.Proofs.Container.AnnotationReading

namespace Dalvik

open Catalog (Attached sortAttached)

/-! ## 1. What it is to share -/

/-- **Things share items by content**: each leads to an offset, and two of them to the same one
exactly if their contents are the same. -/
structure SharedBy {ι α : Type} (things : ι → Prop) (content : ι → α) (leads : ι → UInt32 → Prop) :
    Prop where
  found : ∀ x, things x → ∃ offset, leads x offset
  same : ∀ x y offset other, things x → things y → leads x offset → leads y other →
    (offset = other ↔ content x = content y)

/-- **Sharing comes from a lookup** of contents that finds different offsets for different ones. -/
theorem SharedBy.of_lookup {ι α : Type} {things : ι → Prop} {content : ι → α}
    {leads : ι → UInt32 → Prop} {f : α → Except Error UInt32}
    (hfound : ∀ x, things x → ∃ offset, leads x offset)
    (hlookup : ∀ x offset, things x → leads x offset → f (content x) = .ok offset)
    (hinj : ∀ x y offset, things x → things y → f (content x) = .ok offset →
      f (content y) = .ok offset → content x = content y) : SharedBy things content leads where
  found := hfound
  same x y offset other hx hy hleads hother := by
    have ho := hlookup x offset hx hleads
    have hp := hlookup y other hy hother
    constructor
    · rintro rfl
      exact hinj x y offset hx hy ho hp
    · intro h
      rw [h] at ho
      exact Except.ok.inj (ho.symm.trans hp)

/-- A member of the first of two lists of one length has a partner in the second. -/
theorem exists_zip_of_mem {α β : Type} {R : α → β → Prop} {as : List α} {bs : List β}
    (h : List.Forall₂ R as bs) {a : α} (ha : a ∈ as) : ∃ b, (a, b) ∈ as.zip bs := by
  rw [← List.map_fst_zip (Nat.le_of_eq h.length_eq)] at ha
  obtain ⟨⟨_, b⟩, hab, rfl⟩ := List.mem_map.mp ha
  exact ⟨b, hab⟩

theorem of_mem_zip {α β : Type} {R : α → β → Prop} {as : List α} {bs : List β}
    (h : List.Forall₂ R as bs) {a : α} {b : β} (hab : (a, b) ∈ as.zip bs) : R a b :=
  (List.forall₂_iff_zip.mp h).2 hab

/-! ## 2. Items of tables -/

namespace SharedItems

variable {α : Type} [Keyed α] {t : SharedItems α} {kind : ItemKind} {parts : α → List Part}
  {items : List Item} {a b : α} {offset : UInt32}

/-- Nothing that is found is at the offset zero. -/
theorem LaidAs.ne_zero (h : t.LaidAs kind parts items) (ha : t.offsetOf a = .ok offset) :
    offset ≠ 0 := by
  obtain ⟨_, -, -, i, -, rfl, hlaid⟩ := h.of_offsetOf ha
  exact hlaid.ne_zero

/-- **What is found at one offset has one key.** -/
theorem LaidAs.key_eq (h : t.LaidAs kind parts items) (hn : (items.map Item.offset).Nodup)
    (ha : t.offsetOf a = .ok offset) (hb : t.offsetOf b = .ok offset) : key a = key b := by
  obtain ⟨x, hx, hxa⟩ := mem_of_offsetOf ha
  obtain ⟨y, hy, hyb⟩ := mem_of_offsetOf hb
  have hentries : (t.entries.map (·.2)).Nodup := by
    have hoffsets := h.offsets_eq
    rw [offsets] at hoffsets
    rwa [hoffsets]
  have hxy := List.inj_on_of_nodup_map hentries hx hy rfl
  rw [← hxa, ← hyb, (Prod.mk.inj hxy).1]

end SharedItems

/-- What it is for a class to have annotated members. -/
theorem ClassDef.hasMemberAnnotations_iff {d : ClassDef} : d.hasMemberAnnotations = true ↔
    (∃ f ∈ d.fields, f.annotations ≠ []) ∨
      ∃ m ∈ d.methods, m.annotations ≠ [] ∨ m.hasParameterAnnotations = true := by
  simp [hasMemberAnnotations]

namespace Catalog

variable {c : Catalog} {set : List Annotation} {offset : UInt32}

/-- The offset of a slot is that of its set, unless there is no empty set and the slot needs it. -/
theorem slotOffset_eq_ok (h : c.slotOffset set = .ok offset) :
    set = [] ∧ offset = 0 ∨ c.annotationSets.offsetOf set = .ok offset := by
  unfold slotOffset at h
  split at h
  case isFalse => exact .inr h
  case isTrue he =>
    obtain rfl := List.isEmpty_iff.mp he
    obtain rfl := Except.ok.inj h
    by_cases hempty : c.annotationSets.Has []
    · obtain ⟨found, hfound⟩ := SharedItems.offsetOf_of_has hempty
      rw [emptySetOffset_eq hfound]
      exact .inr hfound
    · refine .inl ⟨rfl, ?_⟩
      rw [emptySetOffset, SharedItems.index?_of_not_has hempty]
      rfl

end Catalog

namespace Container

theorem listed_inj {l m : List String} (h : listed l = listed m) : l = m := by
  unfold listed at h
  split at h <;> split at h
  case isTrue.isTrue hl hm => rw [List.isEmpty_iff.mp hl, List.isEmpty_iff.mp hm]
  case isTrue.isFalse | isFalse.isTrue => cases h
  case isFalse.isFalse => exact Option.some.inj h

namespace ContentsOf

variable {options : Options} {tables : IdTables} {placed : Catalog.Placed} {bytes : List UInt8}
  {k : Contents} (hk : ContentsOf options tables placed bytes k)

include hk

/-- No two items of a kind are at one offset. -/
theorem nodup_offsets (kind : ItemKind) : ((k kind).map Item.offset).Nodup := by
  by_cases hkind : kind ∈ ItemKind.fileOrder
  · have hapart := (List.pairwise_flatMap.mp hk.between.apart).1 kind hkind
    refine List.pairwise_map.mpr (hapart.imp_of_mem fun {i j} hi _ hij he => ?_)
    have hlt := Item.start_lt_stop (hk.sound kind i hi).1
    have hstart : i.start = j.start := congrArg UInt32.toNat he
    omega
  · rw [hk.others kind hkind]
    exact .nil

/-- The offset of an array is zero only if there is none. -/
theorem encodedArrayOffset_eq_zero {values : List EncodedValue} {offset : UInt32}
    (h : placed.catalog.encodedArrayOffset values = .ok offset) : offset = 0 ↔ values = [] := by
  unfold Catalog.encodedArrayOffset at h
  split at h
  case isTrue he =>
    cases h
    exact ⟨fun _ => List.isEmpty_iff.mp he, fun _ => rfl⟩
  case isFalse he =>
    have hne := hk.data.encodedArrays.ne_zero h
    exact ⟨fun hz => (hne hz).elim, fun hnil => (he (List.isEmpty_iff.mpr hnil)).elim⟩

/-- Different arrays are at different offsets. -/
theorem encodedArrayOffset_inj {values others : List EncodedValue}
    (hshort : (key values).length < Keyed.limit) {offset : UInt32}
    (h : placed.catalog.encodedArrayOffset values = .ok offset)
    (ho : placed.catalog.encodedArrayOffset others = .ok offset) : values = others := by
  have hzero := hk.encodedArrayOffset_eq_zero h
  rw [hk.encodedArrayOffset_eq_zero ho] at hzero
  by_cases hnil : values = []
  · rw [hnil, hzero.mpr hnil]
  · have hother : others ≠ [] := fun he => hnil (hzero.mp he)
    rw [Catalog.encodedArrayOffset, if_neg (by simpa using hnil)] at h
    rw [Catalog.encodedArrayOffset, if_neg (by simpa using hother)] at ho
    exact (selfDelimiting _).injective hshort
      (hk.data.encodedArrays.key_eq (hk.nodup_offsets .encodedArray) h ho)

/-- Different sets are at different offsets. -/
theorem slotOffset_inj {set other : List Annotation}
    (hset : ∀ a ∈ set, (key a).length < Keyed.limit)
    (hother : ∀ a ∈ other, (key a).length < Keyed.limit) {offset : UInt32}
    (h : placed.catalog.slotOffset set = .ok offset)
    (ho : placed.catalog.slotOffset other = .ok offset) : set = other := by
  have hne : ∀ {a}, placed.catalog.annotationSets.offsetOf a = .ok offset → offset ≠ 0 :=
    hk.data.annotationSets.ne_zero
  rcases Catalog.slotOffset_eq_ok h with ⟨rfl, hz⟩ | h
  · rcases Catalog.slotOffset_eq_ok ho with ⟨rfl, -⟩ | ho
    · rfl
    · exact (hne ho hz).elim
  · rcases Catalog.slotOffset_eq_ok ho with ⟨-, hz⟩ | ho
    · exact (hne h hz).elim
    · exact (selfDelimiting _).delimits.list_of_key hset hother
        (hk.data.annotationSets.key_eq (hk.nodup_offsets .annotationSet) h ho)

end ContentsOf

/-! ## 3. Who leads where -/

/-- The records of prototypes and classes. -/
structure Records where
  protos : List ProtoRecord
  classes : List ClassRecord

/-- Reads the records of the prototypes and of the classes. -/
def Records.read (data : List UInt8) : Except Error Records := do
  let header ← Header.read data
  let t := IdTables.ofHeader header
  let protos ← readTable data t.protos ProtoRecord.read
  let classes ← readTable data t.classes ClassRecord.read
  return { protos, classes }

/-- What has a list of types: a prototype its parameters, and a class its interfaces. -/
inductive TypeListOwner
  | parameters (p : Proto)
  | interfaces (d : ClassDef)

namespace TypeListOwner

/-- The types of the list. -/
def types : TypeListOwner → List String
  | parameters p => p.parameters
  | interfaces d => d.interfaces

/-- The owner is one of a container. -/
def In (c : Catalog) : TypeListOwner → Prop
  | parameters p => p ∈ c.protos.items
  | interfaces d => d ∈ c.classes

end TypeListOwner

/-- A method of a class of a container, of which some parameter is annotated. -/
def HasSetList (c : Catalog) (x : ClassDef × Method) : Prop :=
  x.1 ∈ c.classes ∧ x.2 ∈ x.1.methods ∧ x.2.hasParameterAnnotations = true

/-- What has a set of annotations: a class, a field or a method of it, or a parameter of a method,
given by its place. -/
inductive SetOwner
  | ofClass (d : ClassDef)
  | ofField (d : ClassDef) (f : Field)
  | ofMethod (d : ClassDef) (m : Method)
  | ofParameter (d : ClassDef) (m : Method) (place : Nat)

namespace SetOwner

/-- The annotations of the owner. -/
def annotations : SetOwner → List Annotation
  | ofClass d => d.annotations
  | ofField _ f => f.annotations
  | ofMethod _ m => m.annotations
  | ofParameter _ m place => m.parameterAnnotations[place]?.getD []

/-- The owner is one of a container, and has annotations; a parameter may be without them, if
another one of its method has some. -/
def In (c : Catalog) : SetOwner → Prop
  | ofClass d => d ∈ c.classes ∧ d.annotations ≠ []
  | ofField d f => d ∈ c.classes ∧ f ∈ d.fields ∧ f.annotations ≠ []
  | ofMethod d m => d ∈ c.classes ∧ m ∈ d.methods ∧ m.annotations ≠ []
  | ofParameter d m place => HasSetList c (d, m) ∧ place < m.parameterAnnotations.length

/-- The annotation is one of an owner of a container. -/
def HasAnnotation (c : Catalog) (a : SetOwner × Annotation) : Prop :=
  a.1.In c ∧ a.2 ∈ a.1.annotations

theorem In.hasSet {c : Catalog} {o : SetOwner} (h : o.In c) :
    ∃ d ∈ c.classes, d.HasSet o.annotations := by
  cases o with
  | ofClass d => exact ⟨d, h.1, .inl rfl⟩
  | ofField d f => exact ⟨d, h.1, .inr (.inl ⟨f, h.2.1, rfl⟩)⟩
  | ofMethod d m => exact ⟨d, h.1, .inr (.inr ⟨m, h.2.1, .inl rfl⟩)⟩
  | ofParameter d m place =>
    obtain ⟨⟨hd, hm, -⟩, hplace⟩ := h
    refine ⟨d, hd, .inr (.inr ⟨m, hm, .inr ?_⟩)⟩
    rw [annotations, List.getElem?_eq_getElem hplace]
    exact List.getElem_mem _

end SetOwner

namespace Records

section

variable (x : Records) (c : Catalog) (data : List UInt8)

/-- The offset of the type list of an owner. -/
inductive TypeListAt : TypeListOwner → UInt32 → Prop
  | parameters {p : Proto} {r : ProtoRecord} (h : (p, r) ∈ c.protos.items.zip x.protos) :
    TypeListAt (.parameters p) r.parameters
  | interfaces {d : ClassDef} {r : ClassRecord} (h : (d, r) ∈ c.classes.zip x.classes) :
    TypeListAt (.interfaces d) r.interfaces

/-- The offset of the array of initial values of a class. -/
def StaticValuesAt (d : ClassDef) (offset : UInt32) : Prop :=
  ∃ r, (d, r) ∈ c.classes.zip x.classes ∧ r.staticValues = offset

/-- The offset of the directory of a class, which is zero if it has none. -/
def DirectoryAt (d : ClassDef) (offset : UInt32) : Prop :=
  ∃ r, (d, r) ∈ c.classes.zip x.classes ∧ r.annotations = offset

/-- The directory of a class. -/
def HasDirectory (d : ClassDef) (directory : DirectoryRecord) : Prop :=
  ∃ offset, x.DirectoryAt c d offset ∧ offset ≠ 0 ∧
    Reader.answerAt data offset.toNat DirectoryRecord.read = .ok directory

/-- The offset of the list of sets of a method. -/
def SetListAt (m : ClassDef × Method) (offset : UInt32) : Prop :=
  ∃ directory index, x.HasDirectory c data m.1 directory ∧
    c.methods.get? index.toNat = some (m.1.methodRef m.2) ∧ (index, offset) ∈ directory.parameters

/-- The offset of the set of an owner. -/
inductive SetAt : SetOwner → UInt32 → Prop
  | ofClass {d : ClassDef} {directory : DirectoryRecord} (h : x.HasDirectory c data d directory) :
    SetAt (.ofClass d) directory.classSet
  | ofField {d : ClassDef} {f : Field} {directory : DirectoryRecord} {index offset : UInt32}
    (h : x.HasDirectory c data d directory)
    (hi : c.fields.get? index.toNat = some (d.fieldRef f))
    (hm : (index, offset) ∈ directory.fields) : SetAt (.ofField d f) offset
  | ofMethod {d : ClassDef} {m : Method} {directory : DirectoryRecord} {index offset : UInt32}
    (h : x.HasDirectory c data d directory)
    (hi : c.methods.get? index.toNat = some (d.methodRef m))
    (hm : (index, offset) ∈ directory.methods) : SetAt (.ofMethod d m) offset
  | ofParameter {d : ClassDef} {m : Method} {list : UInt32} {offsets : List UInt32} {place : Nat}
    {offset : UInt32} (h : x.SetListAt c data (d, m) list)
    (hr : Reader.answerAt data list.toNat readWords = .ok offsets)
    (ho : offsets[place]? = some offset) : SetAt (.ofParameter d m place) offset

/-- The offset of an annotation of an owner, which the set of the owner has at the place of the
annotation in the order of types. -/
def AnnotationAt (a : SetOwner × Annotation) (offset : UInt32) : Prop :=
  ∃ (set : UInt32) (offsets : List UInt32) (place : Nat), x.SetAt c data a.1 set ∧
    Reader.answerAt data set.toNat readWords = .ok offsets ∧
    (AnnotationSet.sorted a.1.annotations)[place]? = some a.2 ∧ offsets[place]? = some offset

end

/-- The records are those of a container: each has the offsets that the catalog looks up. -/
structure Of (placed : Catalog.Placed) (directories : List Item) (c : Catalog) (x : Records) :
    Prop where
  protos : List.Forall₂ (fun p r => placed.catalog.typeListOffset p.parameters = .ok r.parameters)
    c.protos.items x.protos
  classes : List.Forall₂ (ClassRecord.Leads placed.catalog directories) c.classes x.classes
  directories : x.classes.map (·.annotations) = placed.directories

namespace Of

variable {options : Options} {tables : IdTables} {placed : Catalog.Placed} {bytes : List UInt8}
  {k : Contents} {c : Catalog} {x : Records} (hx : x.Of placed (k .annotationsDirectory) c)

include hx

/-- What is at the offset of the directory of a class, by the catalog. -/
theorem directoryAt {d : ClassDef} {offset : UInt32} (h : x.DirectoryAt c d offset) :
    placed.catalog.DirectoryAt (k .annotationsDirectory) d offset := by
  obtain ⟨r, hr, rfl⟩ := h
  exact (of_mem_zip hx.classes hr).directory

theorem annotated_of_directoryAt {d : ClassDef} {offset : UInt32} (h : x.DirectoryAt c d offset)
    (hne : offset ≠ 0) : d.Annotated := by
  rcases hx.directoryAt h with ⟨-, hz⟩ | ⟨ha, -⟩
  · exact (hne hz).elim
  · exact ha

variable (hk : ContentsOf options tables placed bytes k)

include hk

/-- The directory of an annotated class is at its offset. -/
theorem read_directory {d : ClassDef} {offset : UInt32} (h : x.DirectoryAt c d offset)
    (ha : d.Annotated) : offset ≠ 0 ∧ ∃ directory,
      Reader.answerAt bytes offset.toNat DirectoryRecord.read = .ok directory := by
  obtain ⟨hne, _, _, _, _, -, hread⟩ := hk.attaches_at (hx.directoryAt h) ha
  exact ⟨hne, _, hread⟩

theorem exists_directory {d : ClassDef} (hd : d ∈ c.classes) (ha : d.Annotated) :
    ∃ directory, x.HasDirectory c bytes d directory := by
  obtain ⟨r, hr⟩ := exists_zip_of_mem hx.classes hd
  obtain ⟨hne, directory, hread⟩ := hx.read_directory hk ⟨r, hr, rfl⟩ ha
  exact ⟨directory, _, ⟨r, hr, rfl⟩, hne, hread⟩

end Of

end Records

/-- A group of a directory has members with their indices and the offsets that are looked up for
them. -/
def GroupOf {α ρ : Type} (pool : Pool ρ) (reference : α → ρ) (lookup : α → Except Error UInt32)
    (members : List α) (group : List Attached) : Prop :=
  ∃ attached, List.Forall₂ (fun a x => pool.get? x.1.toNat = some (reference a) ∧
    lookup a = .ok x.2) members attached ∧ group = sortAttached attached

/-- A group has an entry for a reference, and all entries for it have the offset that is looked
up. -/
structure Entered {ρ : Type} (pool : Pool ρ) (group : List Attached) (reference : ρ)
    (lookup : Except Error UInt32) : Prop where
  found : ∃ index offset, pool.get? index.toNat = some reference ∧ (index, offset) ∈ group
  only : ∀ {index offset}, pool.get? index.toNat = some reference → (index, offset) ∈ group →
    lookup = .ok offset

namespace GroupOf

variable {α ρ : Type} {reference : α → ρ} {pool : Pool ρ} {lookup : α → Except Error UInt32}
  {members : List α} {group : List Attached}

/-- An entry of a group is that of a member. -/
theorem of_entry (h : GroupOf pool reference lookup members group) {index offset : UInt32}
    (hentry : (index, offset) ∈ group) :
    ∃ a ∈ members, pool.get? index.toNat = some (reference a) ∧ lookup a = .ok offset := by
  obtain ⟨attached, h, rfl⟩ := h
  exact exists_of_mem_left h.flip _ ((List.mergeSort_perm ..).mem_iff.mp hentry)

/-- Members whose references differ are entered with what is looked up for them. -/
theorem entered (h : GroupOf pool reference lookup members group)
    (hn : (members.map reference).Nodup) {a : α} (ha : a ∈ members) :
    Entered pool group (reference a) (lookup a) where
  found := by
    obtain ⟨attached, h, rfl⟩ := h
    obtain ⟨⟨index, offset⟩, hx, hindex, -⟩ := exists_of_mem_left h a ha
    exact ⟨index, offset, hindex, (List.mergeSort_perm ..).mem_iff.mpr hx⟩
  only := by
    intro index offset hindex hentry
    obtain ⟨b, hb, hother, ho⟩ := h.of_entry hentry
    have hsame : reference a = reference b := Option.some.inj (hindex.symm.trans hother)
    rwa [List.inj_on_of_nodup_map hn ha hb hsame]

end GroupOf

/-- A directory has what the catalog looks up for a class: the set of the class, and the groups of
its members. -/
structure DirectoryRecord.Has (p c : Catalog) (d : ClassDef) (directory : DirectoryRecord) :
    Prop where
  classSet : p.ClassSet d directory.classSet
  fields : GroupOf c.fields d.fieldRef (fun f => p.setOffsetOf f.annotations)
    (d.fields.filter fun f => !f.annotations.isEmpty) directory.fields
  methods : GroupOf c.methods d.methodRef (fun m => p.setOffsetOf m.annotations)
    (d.methods.filter fun m => !m.annotations.isEmpty) directory.methods
  parameters : GroupOf c.methods d.methodRef
    (fun m => p.setLists.offsetOf (m.parameterAnnotations.map AnnotationSet.sorted))
    (d.methods.filter (·.hasParameterAnnotations)) directory.parameters

/-- A directory has entries for the annotated members of a class: each with its set, and a method
with annotated parameters with its list of sets. -/
structure DirectoryRecord.Enters (p c : Catalog) (d : ClassDef) (directory : DirectoryRecord) :
    Prop where
  fields : ∀ f ∈ d.fields, f.annotations ≠ [] →
    Entered c.fields directory.fields (d.fieldRef f) (p.setOffsetOf f.annotations)
  methods : ∀ m ∈ d.methods, m.annotations ≠ [] →
    Entered c.methods directory.methods (d.methodRef m) (p.setOffsetOf m.annotations)
  parameters : ∀ m ∈ d.methods, m.hasParameterAnnotations = true →
    Entered c.methods directory.parameters (d.methodRef m)
      (p.setLists.offsetOf (m.parameterAnnotations.map AnnotationSet.sorted))

namespace Written

variable {options : Options} {classes : List ClassDef} {bytes : List UInt8} {c : Catalog}
  {tables : IdTables} {placed : Catalog.Placed} {s : Stream} {k : Contents} {x : Records}

/-! ## 4. Type lists and arrays -/

section

variable (w : Written options classes bytes c tables placed s)

include w

/-- The records of a container are read. -/
theorem readRecords (hk : ContentsOf options tables placed bytes k) :
    ∃ x, Records.read bytes = .ok x ∧
      x.Of placed (k .annotationsDirectory) c := by
  obtain ⟨protos, hprotos, hfound⟩ :=
    readTable_eq_ok w.hold.protos fun _ _ => takes_protoParts
  obtain ⟨records, hrecords, hleads, hdirectories⟩ := w.readRecords_eq hk
  obtain ⟨header, hread, ht⟩ := w.header
  rw [w.protos_eq] at hfound
  refine ⟨⟨protos, records⟩, bind_eq_ok.mpr ⟨header, hread, ?_⟩,
    ⟨hfound.imp ?_, hleads, hdirectories⟩⟩
  · rw [ht]
    exact bind_eq_ok.mpr ⟨protos, hprotos, bind_eq_ok.mpr ⟨records, hrecords, rfl⟩⟩
  · exact fun _ _ h => h.2.2

/-- **Type lists are shared by content**, those of prototypes and those of classes together. -/
theorem typeLists_shared (hx : x.Of placed (k .annotationsDirectory) c) :
    SharedBy (TypeListOwner.In c) TypeListOwner.types (x.TypeListAt c) := by
  refine .of_lookup (f := placed.catalog.typeListOffset) ?_ ?_ ?_
  · intro o ho
    cases o with
    | parameters p =>
      obtain ⟨r, hr⟩ := exists_zip_of_mem hx.protos ho
      exact ⟨_, .parameters hr⟩
    | interfaces d =>
      obtain ⟨r, hr⟩ := exists_zip_of_mem hx.classes ho
      exact ⟨_, .interfaces hr⟩
  · intro o offset _ hleads
    cases hleads with
    | parameters h => exact of_mem_zip hx.protos h
    | interfaces h => exact (of_mem_zip hx.classes h).interfaces
  · -- the list at an offset reads back as one list only
    intro o o' offset _ _ ho ho'
    have hread := w.readTypeList_eq ho
    rw [w.readTypeList_eq ho'] at hread
    exact listed_inj (Except.ok.inj hread).symm

/-- **Arrays of initial values are shared by content**; a class without values has none. -/
theorem staticValues_shared (hk : ContentsOf options tables placed bytes k)
    (hvalues : ∀ d : ClassDef, d.Kept classes → (key d.staticValues).length < Keyed.limit)
    (hx : x.Of placed (k .annotationsDirectory) c) :
    SharedBy (· ∈ c.classes) ClassDef.staticValues (x.StaticValuesAt c) ∧
      ∀ d offset, x.StaticValuesAt c d offset → (offset = 0 ↔ d.staticValues = []) := by
  have hlookup : ∀ d offset, x.StaticValuesAt c d offset →
      placed.catalog.encodedArrayOffset d.staticValues = .ok offset := by
    rintro d offset ⟨r, hr, rfl⟩
    exact (of_mem_zip hx.classes hr).staticValues
  refine ⟨.of_lookup (f := placed.catalog.encodedArrayOffset) ?_
    (fun d offset _ => hlookup d offset) ?_, fun d offset h => ?_⟩
  · intro d hd
    obtain ⟨r, hr⟩ := exists_zip_of_mem hx.classes hd
    exact ⟨_, r, hr, rfl⟩
  · intro d e offset hd _ ho ho'
    exact hk.encodedArrayOffset_inj (hvalues d ((w.kept d).mp hd)) ho ho'
  · exact hk.encodedArrayOffset_eq_zero (hlookup d offset h)

end

/-! ## 5. Sets and lists of sets -/

section

variable (w : Written options classes bytes c tables placed s)
  (hk : ContentsOf options tables placed bytes k)
  (hkeys : ∀ d : ClassDef, d.Kept classes → ∀ a, d.HasAnnotation a → (key a).length < Keyed.limit)

include hk

include w

/-- **The directory of a class** has what the catalog looks up for the class. -/
theorem directory_has (hx : x.Of placed (k .annotationsDirectory) c) {d : ClassDef}
    {directory : DirectoryRecord} (h : x.HasDirectory c bytes d directory) :
    directory.Has placed.catalog c d := by
  obtain ⟨offset, hat, hne, hread⟩ := h
  obtain ⟨-, classSet, fields, own, parameters, hattaches, hfound⟩ :=
    hk.attaches_at (hx.directoryAt hat) (hx.annotated_of_directoryAt hat hne)
  rw [hread] at hfound
  obtain rfl := Except.ok.inj hfound
  obtain ⟨hset, hf, ho, hp⟩ := hattaches
  rw [w.indexer_eq] at hf ho hp
  exact {
    classSet := hset
    fields := ⟨fields, hf.imp fun _ _ h => ⟨w.field_of_index h.1, h.2⟩, rfl⟩
    methods := ⟨own, ho.imp fun _ _ h => ⟨w.method_of_index h.1, h.2⟩, rfl⟩
    parameters := ⟨parameters, hp.imp fun _ _ h => ⟨w.method_of_index h.1, h.2⟩, rfl⟩ }

/-- **The members of a class are entered in its directory**, with what the catalog looks up. -/
theorem directory_enters (hx : x.Of placed (k .annotationsDirectory) c) {d : ClassDef}
    (hd : d ∈ c.classes) {directory : DirectoryRecord}
    (h : x.HasDirectory c bytes d directory) : directory.Enters placed.catalog c d := by
  obtain ⟨-, hf, ho, hp⟩ := w.directory_has hk hx h
  obtain ⟨hnf, hnm⟩ := ClassDef.membersDiffer_iff.mp
    ((Catalog.discover_eq_ok w.discovered).1 d ((w.kept d).mp hd))
  exact {
    fields := fun f hmem hne => hf.entered (hnf.sublist (List.filter_sublist.map _))
      (List.mem_filter.mpr ⟨hmem, by simpa using hne⟩)
    methods := fun m hmem hne => ho.entered (hnm.sublist (List.filter_sublist.map _))
      (List.mem_filter.mpr ⟨hmem, by simpa using hne⟩)
    parameters := fun m hmem hsome => hp.entered (hnm.sublist (List.filter_sublist.map _))
      (List.mem_filter.mpr ⟨hmem, hsome⟩) }

theorem exists_setListAt (hx : x.Of placed (k .annotationsDirectory) c)
    {m : ClassDef × Method} (hm : HasSetList c m) : ∃ offset, x.SetListAt c bytes m offset := by
  obtain ⟨hd, hmem, hp⟩ := hm
  have ha : m.1.Annotated := .inr (ClassDef.hasMemberAnnotations_iff.mpr (.inr ⟨_, hmem, .inr hp⟩))
  obtain ⟨directory, h⟩ := hx.exists_directory hk hd ha
  obtain ⟨index, offset, hindex, hentry⟩ :=
    ((w.directory_enters hk hx hd h).parameters _ hmem hp).found
  exact ⟨offset, directory, index, h, hindex, hentry⟩

theorem offsetOf_of_setListAt (hx : x.Of placed (k .annotationsDirectory) c)
    {m : ClassDef × Method} (hm : HasSetList c m) {offset : UInt32}
    (h : x.SetListAt c bytes m offset) : placed.catalog.setLists.offsetOf
      (m.2.parameterAnnotations.map AnnotationSet.sorted) = .ok offset := by
  obtain ⟨directory, index, h, hindex, hentry⟩ := h
  exact ((w.directory_enters hk hx hm.1 h).parameters _ hm.2.1 hm.2.2).only hindex hentry

include hkeys

/-- **Lists of sets are shared by content.** -/
theorem setLists_shared (hx : x.Of placed (k .annotationsDirectory) c) :
    SharedBy (HasSetList c) (fun m => m.2.parameterAnnotations.map AnnotationSet.sorted)
      (x.SetListAt c bytes) := by
  have hreached : ∀ m, HasSetList c m → Reached options classes
      (.setList (m.2.parameterAnnotations.map AnnotationSet.sorted)) := fun m hm =>
    .named ((w.kept m.1).mp hm.1) (.owned (.setList hm.2.1 hm.2.2))
  refine .of_lookup (f := placed.catalog.setLists.offsetOf)
    (fun m hm => w.exists_setListAt hk hx hm)
    (fun m offset hm h => w.offsetOf_of_setListAt hk hx hm h) ?_
  intro m n offset hm hn h ho
  exact (selfDelimiting _).delimits.list.list_of_key
    (w.short_of_setList hk hkeys (hreached m hm)) (w.short_of_setList hk hkeys (hreached n hn))
    (hk.data.setLists.key_eq (hk.nodup_offsets .annotationSetRefList) h ho)

/-- The list of sets of a method has the offset of the set of each parameter. -/
theorem slots_of_setListAt (hx : x.Of placed (k .annotationsDirectory) c) {d : ClassDef}
    {m : Method} (hm : HasSetList c (d, m)) {list : UInt32} (h : x.SetListAt c bytes (d, m) list) :
    ∃ offsets, List.Forall₂ (fun set o =>
      placed.catalog.slotOffset (AnnotationSet.sorted set) = .ok o) m.parameterAnnotations offsets ∧
        Reader.answerAt bytes list.toNat readWords = .ok offsets :=
  w.setList_at hk hkeys ((w.kept d).mp hm.1) hm.2.1 hm.2.2 (w.offsetOf_of_setListAt hk hx hm h)

theorem exists_setAt (hx : x.Of placed (k .annotationsDirectory) c) {o : SetOwner}
    (ho : o.In c) : ∃ offset, x.SetAt c bytes o offset := by
  cases o with
  | ofClass d =>
    obtain ⟨directory, h⟩ := hx.exists_directory hk ho.1 (.inl ho.2)
    exact ⟨_, .ofClass h⟩
  | ofField d f =>
    obtain ⟨hd, hf, hne⟩ := ho
    obtain ⟨directory, h⟩ := hx.exists_directory hk hd
      (.inr (ClassDef.hasMemberAnnotations_iff.mpr (.inl ⟨f, hf, hne⟩)))
    obtain ⟨index, offset, hi, hm⟩ := ((w.directory_enters hk hx hd h).fields f hf hne).found
    exact ⟨offset, .ofField h hi hm⟩
  | ofMethod d m =>
    obtain ⟨hd, hmem, hne⟩ := ho
    obtain ⟨directory, h⟩ := hx.exists_directory hk hd
      (.inr (ClassDef.hasMemberAnnotations_iff.mpr (.inr ⟨m, hmem, .inl hne⟩)))
    obtain ⟨index, offset, hi, hm⟩ := ((w.directory_enters hk hx hd h).methods m hmem hne).found
    exact ⟨offset, .ofMethod h hi hm⟩
  | ofParameter d m place =>
    obtain ⟨hm, hlt⟩ := ho
    obtain ⟨list, hlist⟩ := w.exists_setListAt hk hx hm
    obtain ⟨offsets, hoffsets, hread⟩ := w.slots_of_setListAt hk hkeys hx hm hlist
    rw [hoffsets.length_eq] at hlt
    exact ⟨_, .ofParameter hlist hread (List.getElem?_eq_getElem hlt)⟩

theorem slotOffset_of_setAt (hx : x.Of placed (k .annotationsDirectory) c) {o : SetOwner}
    (ho : o.In c) {offset : UInt32} (h : x.SetAt c bytes o offset) :
    placed.catalog.slotOffset (AnnotationSet.sorted o.annotations) = .ok offset := by
  cases h with
  | ofClass h =>
    exact (Catalog.slotOffset_sorted ho.2).trans ((w.directory_has hk hx h).classSet.2 ho.2)
  | ofField h hi hm =>
    obtain ⟨hd, hf, hne⟩ := ho
    exact (Catalog.slotOffset_sorted hne).trans
      (((w.directory_enters hk hx hd h).fields _ hf hne).only hi hm)
  | ofMethod h hi hm =>
    obtain ⟨hd, hmem, hne⟩ := ho
    exact (Catalog.slotOffset_sorted hne).trans
      (((w.directory_enters hk hx hd h).methods _ hmem hne).only hi hm)
  | @ofParameter d m list offsets place _ hlist hread hoffset =>
    obtain ⟨hm, hlt⟩ := ho
    obtain ⟨found, hfound, hagain⟩ := w.slots_of_setListAt hk hkeys hx hm hlist
    obtain rfl := Except.ok.inj (hread.symm.trans hagain)
    obtain ⟨hplace, rfl⟩ := List.getElem?_eq_some_iff.mp hoffset
    have hset : (SetOwner.ofParameter d m place).annotations = m.parameterAnnotations[place] := by
      rw [SetOwner.annotations, List.getElem?_eq_getElem hlt]
      rfl
    rw [hset]
    exact (List.forall₂_iff_get.mp hfound).2 place hlt hplace

omit hk in
theorem short_of_in {o : SetOwner} (ho : o.In c) :
    ∀ a ∈ AnnotationSet.sorted o.annotations, (key a).length < Keyed.limit := by
  intro a ha
  obtain ⟨d, hd, hset⟩ := ho.hasSet
  exact hkeys d ((w.kept d).mp hd) a ⟨_, hset, (AnnotationSet.sorted_perm _).mem_iff.mp ha⟩

/-- **Sets of annotations are shared by content**, whoever has them. -/
theorem sets_shared (hx : x.Of placed (k .annotationsDirectory) c) :
    SharedBy (SetOwner.In c) (fun o => AnnotationSet.sorted o.annotations) (x.SetAt c bytes) :=
  .of_lookup (f := placed.catalog.slotOffset) (fun _ ho => w.exists_setAt hk hkeys hx ho)
    (fun _ _ ho h => w.slotOffset_of_setAt hk hkeys hx ho h)
    fun _ _ _ ho ho' h h' =>
      hk.slotOffset_inj (w.short_of_in hkeys ho) (w.short_of_in hkeys ho') h h'

/-- The set of an owner with annotations has the offset of each of them. -/
theorem offsets_of_setAt (hx : x.Of placed (k .annotationsDirectory) c) {o : SetOwner}
    (ho : o.In c) (hne : o.annotations ≠ []) {set : UInt32} (h : x.SetAt c bytes o set) :
    ∃ offsets, List.Forall₂ (fun a offset => placed.catalog.annotations.offsetOf a = .ok offset)
      (AnnotationSet.sorted o.annotations) offsets ∧
        Reader.answerAt bytes set.toNat readWords = .ok offsets := by
  have hslot := w.slotOffset_of_setAt hk hkeys hx ho h
  rw [Catalog.slotOffset_sorted hne] at hslot
  exact (w.offsets_at hk hkeys (w.short_of_in hkeys ho) hslot).2.2

/-- **Annotations are shared by content**, whichever sets have them. -/
theorem annotations_shared (hx : x.Of placed (k .annotationsDirectory) c) :
    SharedBy (fun o => SetOwner.HasAnnotation c o) Prod.snd (x.AnnotationAt c bytes) := by
  refine .of_lookup (f := placed.catalog.annotations.offsetOf) ?_ ?_ ?_
  · rintro ⟨o, a⟩ ⟨ho, ha⟩
    obtain ⟨set, hset⟩ := w.exists_setAt hk hkeys hx ho
    obtain ⟨offsets, hoffsets, hread⟩ :=
      w.offsets_of_setAt hk hkeys hx ho (List.ne_nil_of_mem ha) hset
    obtain ⟨place, hplace, hat⟩ :=
      List.getElem_of_mem ((AnnotationSet.sorted_perm _).mem_iff.mpr ha)
    have hlt : place < offsets.length := hoffsets.length_eq ▸ hplace
    exact ⟨_, set, offsets, place, hset, hread, List.getElem?_eq_some_iff.mpr ⟨hplace, hat⟩,
      List.getElem?_eq_getElem hlt⟩
  · rintro ⟨o, a⟩ offset ⟨ho, ha⟩ ⟨set, offsets, place, hset, hread, hplace, hoffset⟩
    obtain ⟨found, hfound, hagain⟩ :=
      w.offsets_of_setAt hk hkeys hx ho (List.ne_nil_of_mem ha) hset
    obtain rfl := Except.ok.inj (hread.symm.trans hagain)
    obtain ⟨hlt, hat⟩ := List.getElem?_eq_some_iff.mp hplace
    obtain ⟨hlt', rfl⟩ := List.getElem?_eq_some_iff.mp hoffset
    rw [← hat]
    exact (List.forall₂_iff_get.mp hfound).2 place hlt hlt'
  · rintro ⟨o, a⟩ ⟨o', a'⟩ offset ⟨ho, ha⟩ - h h'
    have hshort := w.short_of_in hkeys ho a ((AnnotationSet.sorted_perm _).mem_iff.mpr ha)
    exact (selfDelimiting _).injective hshort
      (hk.data.annotations.key_eq (hk.nodup_offsets .annotationItem) h h')

end

end Written

end Container

end Dalvik
