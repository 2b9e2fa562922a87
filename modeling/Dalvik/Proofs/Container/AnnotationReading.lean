/-
# Annotations read back

A reader that follows the header to the class definitions, from each to its directory, and from
there to sets and lists of sets, finds the annotations of each class, of its members and of
parameters.

A directory has the offsets of sets with the indices of members, each group in the order of the
indices.  Members of a class differ, so no index comes twice.  A class without annotated members may
have been given the directory of another one; it has the same set, so what is found there is right
for both.

* `readAnnotations` is the reader, and `AnnotationsAre` says what it is to find for a class;
* `attachedAre_of_sorted` says what a group of a directory leads to;
* `Written.directory_at` is the statement for one directory, and `annotations_read_back` the one for
  a container.
-/
import Dalvik.Proofs.Container.AnnotationSets
import Dalvik.Proofs.Container.ClassReading

namespace Dalvik

open Catalog (Attached sortAttached)

namespace Container

/-! ## 1. The reader -/

/-- A directory as a record. -/
structure DirectoryRecord where
  /-- The offset of the set of the class. -/
  classSet : UInt32
  fields : List Attached
  methods : List Attached
  parameters : List Attached
  deriving DecidableEq, Repr, Inhabited

/-- Reads the index of a member and the offset of what is attached to it. -/
def readAttached : Reader Attached := do
  let index ← Cursor.field UInt32
  let offset ← Cursor.field UInt32
  return (index, offset)

/-- Reads a directory: the set of the class, three counts, and the members. -/
def DirectoryRecord.read : Reader DirectoryRecord := do
  let classSet ← Cursor.field UInt32
  let fieldCount ← Cursor.field UInt32
  let methodCount ← Cursor.field UInt32
  let parameterCount ← Cursor.field UInt32
  let fields ← Reader.times fieldCount.toNat readAttached
  let methods ← Reader.times methodCount.toNat readAttached
  let parameters ← Reader.times parameterCount.toNat readAttached
  return { classSet, fields, methods, parameters }

/-- A directory as a container has it: the members with their indices and what is attached. -/
structure DirectoryFound where
  /-- The offset of the set of the class. -/
  classSet : UInt32
  /-- The set of the class, if that offset is not zero. -/
  set? : Option (List AnnotationFound)
  fields : List (UInt32 × List AnnotationFound)
  methods : List (UInt32 × List AnnotationFound)
  parameters : List (UInt32 × List SlotFound)

/-- Follows the offsets of members. -/
def followAll {β : Type} (read : UInt32 → Except Error β) (members : List Attached) :
    Except Error (List (UInt32 × β)) :=
  members.mapM fun member => return (member.1, ← read member.2)

/-- Follows the offsets of a directory. -/
def DirectoryRecord.follow (data : List UInt8) (r : DirectoryRecord) :
    Except Error DirectoryFound := do
  let set? ← readSet? data r.classSet
  let fields ← followAll (readSet data) r.fields
  let methods ← followAll (readSet data) r.methods
  let parameters ← followAll (readSlots data) r.parameters
  return { classSet := r.classSet, set?, fields, methods, parameters }

/-- The annotations of a class as a container has them. -/
structure AnnotationsFound where
  /-- The offset of the directory. -/
  offset : UInt32
  /-- The directory, if the offset is not zero. -/
  directory? : Option DirectoryFound

/-- Reads the directory at an offset, zero for none. -/
def AnnotationsFound.follow (data : List UInt8) (offset : UInt32) :
    Except Error AnnotationsFound :=
  if offset == 0 then
    return { offset, directory? := none }
  else do
    let record ← Reader.answerAt data offset.toNat DirectoryRecord.read
    return { offset, directory? := some (← record.follow data) }

/-- **Reads the annotations** of the classes of a container. -/
def readAnnotations (data : List UInt8) : Except Error (List AnnotationsFound) := do
  let header ← Header.read data
  let records ← readTable data (IdTables.ofHeader header).classes ClassRecord.read
  records.mapM fun r => AnnotationsFound.follow data r.annotations

/-! ## 2. What is to be found -/

/-- **The members found** are the given ones, each once, in the order of their indices. -/
structure AttachedAre {α β : Type} (is : α → UInt32 → β → Prop) (members : List α)
    (found : List (UInt32 × β)) : Prop where
  increasing : found.Pairwise fun x y => x.1 < y.1
  same : ∃ order : List α, order.Perm members ∧ List.Forall₂ (fun a x => is a x.1 x.2) order found

/-- **The directory found** is that of a class: it has the set of the class, each annotated field
and each annotated method with its set, and each method with annotated parameters with a slot for
each of them. -/
structure DirectoryIs (options : Options) (c : Catalog) (empty : UInt32) (d : ClassDef)
    (x : DirectoryFound) : Prop where
  noSet : x.classSet = 0 ↔ d.annotations = []
  set : d.annotations ≠ [] → ∃ found, x.set? = some found ∧ SetIs c.indexer d.annotations found
  fields : AttachedAre (fun f index found => c.fields.get? index.toNat = some (d.fieldRef f) ∧
    SetIs c.indexer f.annotations found) (d.fields.filter fun f => !f.annotations.isEmpty) x.fields
  methods : AttachedAre (fun m index found => c.methods.get? index.toNat = some (d.methodRef m) ∧
    SetIs c.indexer m.annotations found) (d.methods.filter fun m => !m.annotations.isEmpty)
      x.methods
  parameters : AttachedAre (fun m index slots =>
    c.methods.get? index.toNat = some (d.methodRef m) ∧
      List.Forall₂ (SlotIs options c.indexer empty) m.parameterAnnotations slots)
        (d.methods.filter (·.hasParameterAnnotations)) x.parameters

/-- **The annotations found** are those of a class: there is no directory if neither the class nor a
member is annotated, and otherwise that of the class. -/
structure AnnotationsAre (options : Options) (c : Catalog) (empty : UInt32) (d : ClassDef)
    (x : AnnotationsFound) : Prop where
  absent : x.offset = 0 ↔ ¬ d.Annotated
  directory : d.Annotated → ∃ found, x.directory? = some found ∧
    DirectoryIs options c empty d found

/-! ## 3. Groups of members -/

/-- Sorted members do not decrease. -/
theorem pairwise_sortAttached (members : List Attached) :
    (sortAttached members).Pairwise fun x y => x.1 ≤ y.1 := by
  have hiff : ∀ a b : Attached, (a.1 < b.1 || a.1 == b.1 && a.2 ≤ b.2) = true ↔
      a.1.toNat < b.1.toNat ∨ a.1.toNat = b.1.toNat ∧ a.2.toNat ≤ b.2.toNat := by
    intro a b
    simp only [Bool.or_eq_true, Bool.and_eq_true, decide_eq_true_eq, beq_iff_eq,
      UInt32.lt_iff_toNat_lt, UInt32.le_iff_toNat_le, UInt32.toNat_inj]
  have hsorted := @List.pairwise_mergeSort _
    (fun a b : Attached => a.1 < b.1 || a.1 == b.1 && a.2 ≤ b.2) ?_ ?_ members
  · refine hsorted.imp fun {a b} h => ?_
    have hle := (hiff a b).mp h
    rw [UInt32.le_iff_toNat_le]
    omega
  · intro a b c hab hbc
    rw [hiff] at hab hbc ⊢
    omega
  · intro a b
    rw [Bool.or_eq_true, hiff, hiff]
    omega

theorem sortAttached_eq_sortUpTo : sortAttached = fun members =>
    sortUpTo (fun a b => a.1 < b.1 || a.1 == b.1 && a.2 ≤ b.2) members.length members :=
  funext fun _ => mergeSort_eq_sortUpTo _ _

/-- **A group of a directory** leads to what is attached to its members, if their references
differ. -/
theorem attachedAre_of_sorted {α β ρ : Type} {reference : α → ρ} {pool : List ρ}
    {S : α → β → Prop} {f : UInt32 → Except Error β} {members : List α}
    {attached : List Attached}
    (h : List.Forall₂ (fun a x => pool[x.1.toNat]? = some (reference a) ∧
      ∃ b, S a b ∧ f x.2 = .ok b) members attached)
    (hn : (members.map reference).Nodup) :
    ∃ found, AttachedAre (fun a index b => pool[index.toNat]? = some (reference a) ∧ S a b)
      members found ∧ followAll f (sortAttached attached) = .ok found := by
  have hperm : (sortAttached attached).Perm attached := List.mergeSort_perm ..
  obtain ⟨order, horder, hmembers⟩ := List.perm_comp_forall₂ hperm h.flip
  obtain ⟨found, hfound, hread⟩ := exists_forall₂ (T := fun x y => y.1 = x.1 ∧ f x.2 = .ok y.2)
    (S := fun a y => pool[y.1.toNat]? = some (reference a) ∧ S a y.2) horder.flip
    fun a x ⟨hindex, b, hb, hread⟩ => ⟨(x.1, b), ⟨hindex, hb⟩, rfl, hread⟩
  have hsame : found.map (·.1) = (sortAttached attached).map (·.1) := by
    rw [← List.forall₂_eq_eq_eq, List.forall₂_map_left_iff, List.forall₂_map_right_iff]
    exact hread.flip.imp fun y x hy => hy.1
  have hle : found.Pairwise fun x y => x.1 ≤ y.1 := by
    rw [← List.pairwise_map (f := fun x : UInt32 × β => x.1), hsame, List.pairwise_map]
    exact pairwise_sortAttached attached
  have hne : found.Pairwise fun x y => x.1 ≠ y.1 := by
    have hreferences : (order.map reference).Pairwise (· ≠ ·) :=
      (hmembers.map reference).nodup_iff.mpr hn
    refine pairwise_of_forall₂ hfound (List.pairwise_map.mp hreferences) ?_
    intro a a' x x' hx hx' hne he
    rw [he, hx'.1] at hx
    exact hne (Option.some.inj hx.1).symm
  refine ⟨found, ⟨(hle.and hne).imp fun h => UInt32.lt_of_le_of_ne h.1 h.2, order, hmembers,
    hfound⟩, mapM_eq_ok.mpr (hread.imp ?_)⟩
  rintro x ⟨index, b⟩ ⟨rfl, hb⟩
  exact bind_eq_ok.mpr ⟨b, hb, rfl⟩

theorem takes_attached (members : List Attached) (pos : Nat) :
    Takes (Reader.times members.length readAttached) pos
      (members.flatMap fun x => LittleEndian.encode x.1 ++ LittleEndian.encode x.2) members := by
  have htimes := Takes.times_map (r := readAttached) (f := id) (l := members)
    (fun x _ p => (Takes.field p x.1).bind (Takes.field _ x.2).map) pos
  rwa [List.map_id] at htimes

/-- A directory is read back. -/
theorem takes_directory {classSet : UInt32} {fields methods parameters : List Attached}
    {data : List UInt8}
    (h : Catalog.directoryPart classSet [fields, methods, parameters] = .ok data) (pos : Nat) :
    Takes DirectoryRecord.read pos data
      ⟨classSet, sortAttached fields, sortAttached methods, sortAttached parameters⟩ := by
  obtain ⟨counts, hcounts, h⟩ := bind_eq_ok.mp h
  obtain rfl := pure_eq_ok.mp h
  have hlength : ∀ {members : List Attached} {count : UInt32},
      Bytes.narrow32 members.length = .ok count →
        count.toNat = (sortAttached members).length := by
    intro members count hn
    rw [Bytes.narrow32_eq_ok hn, sortAttached, List.length_mergeSort]
  obtain ⟨fieldCount, _, hf, hsecond, rfl⟩ := List.forall₂_cons_left_iff.mp (mapM_eq_ok.mp hcounts)
  obtain ⟨methodCount, _, hm, hthird, rfl⟩ := List.forall₂_cons_left_iff.mp hsecond
  obtain ⟨parameterCount, _, hp, hnone, rfl⟩ := List.forall₂_cons_left_iff.mp hthird
  obtain rfl := List.forall₂_nil_left_iff.mp hnone
  simp only [List.map_cons, List.map_nil, List.flatten_cons, List.flatten_nil, List.append_nil,
    List.cons_append, List.nil_append, List.flatMap_cons, List.flatMap_nil, List.flatMap_append,
    List.flatMap_assoc]
  refine (Takes.field pos classSet).bind ((Takes.field _ fieldCount).bind
    ((Takes.field _ methodCount).bind ((Takes.field _ parameterCount).bind ?_)))
  rw [hlength hf, hlength hm, hlength hp]
  exact (takes_attached _ _).bind ((takes_attached _ _).bind (takes_attached _ _).map)

/-! ## 4. Records and directories -/

/-- The record of a class has the offsets of what the class shares with others. -/
structure ClassRecord.Leads (p : Catalog) (directories : List Item) (d : ClassDef)
    (r : ClassRecord) : Prop where
  interfaces : p.typeListOffset d.interfaces = .ok r.interfaces
  directory : p.DirectoryAt directories d r.annotations
  staticValues : p.encodedArrayOffset d.staticValues = .ok r.staticValues

section

variable {options : Options} {tables : IdTables} {placed : Catalog.Placed} {bytes : List UInt8}
  {k : Contents} (hk : ContentsOf options tables placed bytes k)

include hk

/-- A directory has what is attached to its class. -/
theorem ContentsOf.attaches_at {d : ClassDef} {offset : UInt32}
    (h : placed.catalog.DirectoryAt (k .annotationsDirectory) d offset) (ha : d.Annotated) :
    offset ≠ 0 ∧ ∃ classSet fields own parameters,
      placed.catalog.Attaches d classSet fields own parameters ∧
      Reader.answerAt bytes offset.toNat DirectoryRecord.read = .ok
        ⟨classSet, sortAttached fields, sortAttached own, sortAttached parameters⟩ := by
  rcases h with ⟨hno, -⟩ | ⟨-, i, hi, rfl, classSet, fields, own, parameters, hattaches, hpart⟩
  · exact (hno ha).elim
  · obtain ⟨_, hlaid⟩ := hk.data.directories.laid i hi
    exact ⟨hlaid.ne_zero, classSet, fields, own, parameters, hattaches,
      answerAt_of_takes (takes_directory hpart _) (hk.stand .annotationsDirectory i hi)⟩

/-- The records of the classes. -/
theorem Written.readRecords_eq {classes : List ClassDef} {c : Catalog} {s : Stream}
    (w : Written options classes bytes c tables placed s) :
    ∃ records, readTable bytes tables.classes ClassRecord.read = .ok records ∧
      List.Forall₂ (ClassRecord.Leads placed.catalog (k .annotationsDirectory)) c.classes
        records ∧ records.map (·.annotations) = placed.directories := by
  obtain ⟨code, -, hdata⟩ := w.layers.classData
  obtain ⟨records, hrecords, hholds⟩ := readTable_eq_ok w.hold.classes takes_classPart
  have hdirectories := hk.data.directories.offsets
  rw [w.classes_eq] at hholds hdirectories
  have hle : placed.directories.length ≤ placed.classData.length := by
    rw [w.layers.directories,
      ← (hdata.mapM fun _ => .inside _ ClassDef.appends_writeData).length_eq]
  have hfst := List.map_fst_zip hle
  have hsnd : (c.classes.zip (placed.directories.zip placed.classData)).map (·.2) =
      placed.directories.zip placed.classData := List.map_snd_zip (by
    rw [List.length_zip, ← w.layers.directories]
    exact Nat.min_le_left ..)
  rw [← hfst, List.forall₂_map_right_iff] at hdirectories
  refine ⟨records, hrecords, (forall₂_of_zip hdirectories hholds).imp ?_, ?_⟩
  · rintro d r ⟨x, hat, interfaces, staticValues, hlist, harray, hr⟩
    have hoffset : x.1 = r.annotations := hr.annotations
    rw [hoffset] at hat
    exact ⟨by rw [hlist, ← hr.interfaces], hat, by rw [harray, ← hr.staticValues]⟩
  · rw [← hfst, ← hsnd, List.map_map, ← List.forall₂_eq_eq_eq, List.forall₂_map_left_iff,
      List.forall₂_map_right_iff]
    exact hholds.flip.imp fun _ _ ⟨_, _, _, _, hr⟩ => hr.annotations.symm

end

namespace Written

variable {options : Options} {classes : List ClassDef} {bytes : List UInt8} {c : Catalog}
  {tables : IdTables} {placed : Catalog.Placed} {s : Stream} {k : Contents}
  (w : Written options classes bytes c tables placed s)
  (hk : ContentsOf options tables placed bytes k)
  (hkeys : ∀ d : ClassDef, d.Kept classes → ∀ a, d.HasAnnotation a → (key a).length < Keyed.limit)

include w hk hkeys

/-! ## 5. Annotations of a class -/

/-- What is attached leads to the annotations of a class, its members and their parameters. -/
theorem follow_directory {d : ClassDef} (hd : d.Kept classes) {classSet : UInt32}
    {fields own parameters : List Attached}
    (h : placed.catalog.Attaches d classSet fields own parameters) :
    ∃ found, DirectoryIs options c placed.catalog.emptySetOffset d found ∧
      DirectoryRecord.follow bytes
        ⟨classSet, sortAttached fields, sortAttached own, sortAttached parameters⟩ = .ok found := by
  obtain ⟨hnf, hnm⟩ := ClassDef.membersDiffer_iff.mp ((Catalog.discover_eq_ok w.discovered).1 d hd)
  have hset : ∃ set?, readSet? bytes classSet = .ok set? ∧ (classSet = 0 ↔ d.annotations = []) ∧
      (d.annotations ≠ [] → ∃ found, set? = some found ∧
        SetIs c.indexer d.annotations found) := by
    by_cases hnil : d.annotations = []
    · obtain rfl := h.classSet.1 hnil
      exact ⟨none, rfl, ⟨fun _ => hnil, fun _ => rfl⟩, fun hne => (hne hnil).elim⟩
    · obtain ⟨hne, found, hfound, hread⟩ :=
        w.set_at hk hkeys hd (.inl rfl) (h.classSet.2 hnil)
      exact ⟨some found, readSet?_eq hne hread, ⟨fun hz => (hne hz).elim,
        fun hz => (hnil hz).elim⟩, fun _ => ⟨found, rfl, hfound⟩⟩
  have hf := (List.forall₂_and_left (d.fields.filter _) fields).mpr
    ⟨fun f hf => List.mem_of_mem_filter hf, h.fields⟩
  have ho := (List.forall₂_and_left (d.methods.filter _) own).mpr
    ⟨fun m hm => List.mem_of_mem_filter hm, h.own⟩
  have hp := (List.forall₂_and_left (d.methods.filter _) parameters).mpr
    ⟨fun m hm => List.mem_filter.mp hm, h.parameters⟩
  rw [w.indexer_eq] at hf ho hp
  obtain ⟨set?, hset?, hzero, hsome⟩ := hset
  have hfields : List.Forall₂ (fun f x => c.fields.items[x.1.toNat]? = some (d.fieldRef f) ∧
      ∃ found, SetIs c.indexer f.annotations found ∧ readSet bytes x.2 = .ok found)
        (d.fields.filter fun f => !f.annotations.isEmpty) fields := by
    refine hf.imp ?_
    rintro f x ⟨hmem, hindex, hset⟩
    exact ⟨w.field_of_index hindex, (w.set_at hk hkeys hd (.inr (.inl ⟨f, hmem, rfl⟩)) hset).2⟩
  have hmethods : List.Forall₂ (fun m x => c.methods.items[x.1.toNat]? = some (d.methodRef m) ∧
      ∃ found, SetIs c.indexer m.annotations found ∧ readSet bytes x.2 = .ok found)
        (d.methods.filter fun m => !m.annotations.isEmpty) own := by
    refine ho.imp ?_
    rintro m x ⟨hmem, hindex, hset⟩
    have hs : d.HasSet m.annotations := .inr (.inr ⟨m, hmem, .inl rfl⟩)
    exact ⟨w.method_of_index hindex, (w.set_at hk hkeys hd hs hset).2⟩
  have hparameters : List.Forall₂ (fun m x =>
      c.methods.items[x.1.toNat]? = some (d.methodRef m) ∧
      ∃ slots, List.Forall₂ (SlotIs options c.indexer placed.catalog.emptySetOffset)
        m.parameterAnnotations slots ∧ readSlots bytes x.2 = .ok slots)
        (d.methods.filter (·.hasParameterAnnotations)) parameters := by
    refine hp.imp ?_
    rintro m x ⟨⟨hmem, hsome⟩, hindex, hsets⟩
    exact ⟨w.method_of_index hindex, w.slots_at hk hkeys hd hmem hsome hsets⟩
  obtain ⟨foundFields, hfoundFields, hreadFields⟩ :=
    attachedAre_of_sorted hfields (hnf.sublist (List.filter_sublist.map _))
  obtain ⟨foundOwn, hfoundOwn, hreadOwn⟩ :=
    attachedAre_of_sorted hmethods (hnm.sublist (List.filter_sublist.map _))
  obtain ⟨foundParameters, hfoundParameters, hreadParameters⟩ :=
    attachedAre_of_sorted hparameters (hnm.sublist (List.filter_sublist.map _))
  refine ⟨⟨classSet, set?, foundFields, foundOwn, foundParameters⟩, ⟨hzero, hsome, hfoundFields,
    hfoundOwn, hfoundParameters⟩, bind_eq_ok.mpr ⟨set?, hset?, ?_⟩⟩
  exact bind_eq_ok.mpr ⟨_, hreadFields, bind_eq_ok.mpr ⟨_, hreadOwn,
    bind_eq_ok.mpr ⟨_, hreadParameters, rfl⟩⟩⟩

/-- **The directory of a class** is at the offset that has been answered for it. -/
theorem directory_at {d : ClassDef} (hd : d.Kept classes) {offset : UInt32}
    (h : placed.catalog.DirectoryAt (k .annotationsDirectory) d offset) :
    ∃ found, AnnotationsAre options c placed.catalog.emptySetOffset d found ∧
      AnnotationsFound.follow bytes offset = .ok found := by
  rcases h with ⟨hno, rfl⟩ | ⟨ha, hat⟩
  · exact ⟨⟨0, none⟩, ⟨⟨fun _ => hno, fun _ => rfl⟩, fun ha => (hno ha).elim⟩, rfl⟩
  · obtain ⟨hne, _, _, _, _, hattaches, hread⟩ := hk.attaches_at (.inr ⟨ha, hat⟩) ha
    obtain ⟨found, hfound, hfollow⟩ := w.follow_directory hk hkeys hd hattaches
    refine ⟨⟨offset, some found⟩, ⟨⟨fun hz => (hne hz).elim, fun hno => (hno ha).elim⟩,
      fun _ => ⟨found, rfl, hfound⟩⟩, ?_⟩
    rw [AnnotationsFound.follow, if_neg (by simpa using hne)]
    exact bind_eq_ok.mpr ⟨_, hread, bind_eq_ok.mpr ⟨found, hfollow, rfl⟩⟩

/-- The annotations of all classes. -/
theorem readAnnotations_eq : ∃ found, readAnnotations bytes = .ok found ∧
    List.Forall₂ (AnnotationsAre options c placed.catalog.emptySetOffset) c.classes found := by
  obtain ⟨records, hrecords, hleads, -⟩ := w.readRecords_eq hk
  have hclasses := (List.forall₂_and_left c.classes records).mpr
    ⟨fun d => (w.kept d).mp, hleads⟩
  obtain ⟨found, hfound, hfollow⟩ := exists_forall₂ hclasses
    fun d r h => w.directory_at hk hkeys h.1 h.2.directory
  obtain ⟨header, hread, ht⟩ := w.header
  refine ⟨found, bind_eq_ok.mpr ⟨header, hread, ?_⟩, hfound⟩
  rw [ht]
  exact bind_eq_ok.mpr ⟨records, hrecords, mapM_eq_ok.mpr hfollow⟩

end Written

/-! ## 6. Annotations -/

/-- **Annotations read back.**  A reader of a container that has been written, whatever the digests
are, finds for each class, in the order of writing, all of its annotations and those of its members
and their parameters, and nothing more.  A parameter without annotations has the empty set, which is
at one offset for all, or none. -/
theorem annotations_read_back {sign : List UInt8 → Vector UInt8 20} {sum : List UInt8 → UInt32}
    {options : Options} {classes : List ClassDef} {bytes : List UInt8}
    (h : writeWith sign sum options classes = .ok bytes)
    (hkeys : ∀ d : ClassDef, d.Kept classes →
      ∀ a, d.HasAnnotation a → (key a).length < Keyed.limit) :
    ∃ c empty found, Catalog.discover options classes = .ok c ∧
      (options.emptySet = false → empty = 0) ∧ readAnnotations bytes = .ok found ∧
      List.Forall₂ (AnnotationsAre options c empty) (ClassDef.inOrder classes) found := by
  obtain ⟨i, c, tables, placed, s, -, hl, rfl⟩ := image_of_write h
  have w := written_of_laid sign sum hl
  obtain ⟨k, hk⟩ := Image.contents_of_laid sign sum hl
  obtain ⟨found, hread, hfound⟩ := w.readAnnotations_eq hk hkeys
  rw [Catalog.classes_of_discover w.discovered] at hfound
  exact ⟨c, _, found, w.discovered, w.emptySetOffset_eq_zero hkeys, hread, hfound⟩

/-- A class with annotations everywhere: two on the class that are not in the order of their types,
one on the field, one on the method, and one on the second of its parameters. -/
def auditedClass : ClassDef where
  descriptor := "LMain;"
  annotations := [{ visibility := .runtime, content := { type := "LKeep;", elements := [] } },
    { visibility := .build, content := { type := "LBy;", elements := [("name", .string "x")] } }]
  fields := [{ name := "count", type := "I",
               annotations := [{ visibility := .runtime,
                                 content := { type := "LKeep;", elements := [] } }] }]
  methods := [{ name := "run", proto := { returnType := "V", parameters := ["I", "I"] },
                flags := ⟨0x400⟩,
                annotations := [{ visibility := .runtime,
                                  content := { type := "LKeep;", elements := [] } }],
                parameterAnnotations := [[], [{ visibility := .system,
                                                content := { type := "LIn;", elements := [] } }]] }]

theorem isOk_write_auditedClass : (Container.write {} [auditedClass]).isOk = true := by
  refine isOk_write ?_
  simp only [Image.ofClasses, Catalog.discover, Catalog.freeze, Catalog.freezeNames,
    Catalog.freezeProtos, Catalog.freezeMembers, Pool.freezeBy, Pool.freezeWith,
    Catalog.writeSection, Catalog.writeDirectories, MapList.write, MapList.parts, MapList.entries,
    mergeSort_eq_sortUpTo]
  -- sets are sorted where classes are added, and members where directories are written
  delta Catalog.addClass Catalog.addClassAlone Catalog.addFieldOf Catalog.addMethodOf
    Catalog.addParameters Catalog.addSet Collector.addSet Collector.addAnnotations
    Catalog.writeDirectoriesOf Catalog.writeDirectoriesOf._f Catalog.directory
    Catalog.attachedFields Catalog.attachedMethod Catalog.ownSet? Catalog.parameterSets?
    Catalog.setOffsetOf
  simp only [AnnotationSet.sorted_eq_sortUpTo, sortAttached_eq_sortUpTo]
  decide +kernel

/-- The sets of a class in a list, in which they can be looked at one by one. -/
theorem mem_of_hasSet {d : ClassDef} {set : List Annotation} (h : d.HasSet set) :
    set ∈ d.annotations :: d.fields.map (·.annotations) ++
      d.methods.flatMap fun m => m.annotations :: m.parameterAnnotations := by
  simp only [List.cons_append, List.mem_cons, List.mem_append, List.mem_map, List.mem_flatMap]
  rcases h with rfl | ⟨f, hf, rfl⟩ | ⟨m, hm, hs⟩
  · exact .inl rfl
  · exact .inr (.inl ⟨f, hf, rfl⟩)
  · exact .inr (.inr ⟨m, hm, hs⟩)

theorem auditedClass_keys (a : Annotation) (h : auditedClass.HasAnnotation a) :
    (key a).length < Keyed.limit := by
  obtain ⟨set, hs, ha⟩ := h
  have hshort : ∀ set ∈ auditedClass.annotations :: auditedClass.fields.map (·.annotations) ++
      auditedClass.methods.flatMap (fun m => m.annotations :: m.parameterAnnotations),
        ∀ a ∈ set, (key a).length < Keyed.limit := by
    decide +kernel
  exact hshort set (mem_of_hasSet hs) a ha

theorem annotations_read_back_auditedClass : ∃ bytes, write {} [auditedClass] = .ok bytes ∧
    (∀ d : ClassDef, d.Kept [auditedClass] →
      ∀ a, d.HasAnnotation a → (key a).length < Keyed.limit) ∧
    ∃ c empty found, Catalog.discover {} [auditedClass] = .ok c ∧
      (({} : Options).emptySet = false → empty = 0) ∧ readAnnotations bytes = .ok found ∧
      List.Forall₂ (AnnotationsAre {} c empty) (ClassDef.inOrder [auditedClass]) found := by
  obtain ⟨bytes, h⟩ := exists_of_isOk isOk_write_auditedClass
  have hkeys : ∀ d : ClassDef, d.Kept [auditedClass] →
      ∀ a, d.HasAnnotation a → (key a).length < Keyed.limit := by
    intro d hd
    obtain rfl := List.mem_singleton.mp (ClassDef.definition?_mem hd)
    exact auditedClass_keys
  exact ⟨bytes, h, hkeys, annotations_read_back h hkeys⟩

end Container

end Dalvik
