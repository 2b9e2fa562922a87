/-
# Directories are shared by sets

Directories are not kept by content.  The writer has a table from sets to directories for the
classes of which no member is annotated, goes through the classes in order, and makes a directory
whenever the table has none.  So such classes with one set have one directory; and since sets are
shared by content, they have one if their annotations are the same.

Conversely, two classes never have one directory if a member of either is annotated: a directory is
read in one way only, and an entry for a member leads to a reference, which has the name of the
class.

* `Catalog.answers_bySet` says what a run over the classes preserves: directories go by sets;
* `Written.noMembers_of_hasDirectory` is the converse;
* `items_shared_by_content` puts all kinds of item together.
-/
import Dalvik.Proofs.Container.Sharing

namespace Dalvik

/-- The class is annotated, and none of its members is. -/
def ClassDef.AnnotatedAlone (d : ClassDef) : Prop :=
  d.annotations ≠ [] ∧ d.hasMemberAnnotations = false

/-! ## 1. Directories go by sets -/

namespace Catalog

variable {c : Catalog}

/-- The directory of a class without annotated members is the one for its set. -/
def GoesBySet (c : Catalog) (place : UInt32 → UInt32) (d : ClassDef) (offset : UInt32) : Prop :=
  d.AnnotatedAlone → ∀ set, c.setOffsetOf d.annotations = .ok set → offset = place set

/-- **Directories go by sets.**  There is a directory for each set that all classes without
annotated members have, and for the sets of earlier classes it is the one in the table. -/
theorem answers_bySet (hset : ∀ set offset, c.setOffsetOf set = .ok offset → offset ≠ 0)
    (all : List ClassDef) (shared : List (UInt32 × UInt32)) :
    StepAnswers (c.writeDirectoriesOf shared all) fun found => ∃ place : UInt32 → UInt32,
      (∀ set offset, shared.lookup set = some offset → place set = offset) ∧
        List.Forall₂ (c.GoesBySet place) all found.offsets := by
  induction all generalizing shared with
  | nil =>
    refine .pure ⟨fun set => (shared.lookup set).getD 0, fun set offset h => ?_, .nil⟩
    show (shared.lookup set).getD 0 = offset
    rw [h]
    rfl
  | cons d rest ih =>
    rw [writeDirectoriesOf]
    refine .ite_bind (P := c.ClassSet d) (fun he => .pure ⟨fun _ => rfl, fun hne => ?_⟩)
      (fun hne => fun s a t h => ?_) fun classSet hs => ?_
    · exact (hne (List.isEmpty_iff.mp he)).elim
    · exact ⟨fun he => (hne (List.isEmpty_iff.mpr he)).elim, fun _ => StepAnswers.lift _ s a t h⟩
    have hclass : d.AnnotatedAlone → ∀ set, c.setOffsetOf d.annotations = .ok set →
        set = classSet := fun ha set h => Except.ok.inj (h.symm.trans (hs.2 ha.1))
    split
    case isTrue hm =>
      refine .bind .any fun offset _ => .bind (ih shared) fun found hrest => .pure ?_
      obtain ⟨place, hplace, h⟩ := hrest
      refine ⟨place, hplace, .cons (fun ha => ?_) h⟩
      exact (Bool.false_ne_true (ha.2.symm.trans hm)).elim
    case isFalse hm =>
      dsimp only
      split
      case isTrue hz =>
        -- no set is at the offset zero, so the class is not annotated
        refine .bind (ih shared) fun found hrest => .pure ?_
        obtain ⟨place, hplace, h⟩ := hrest
        refine ⟨place, hplace, .cons (fun ha set hlookup => ?_) h⟩
        have hzero : set = 0 := (hclass ha set hlookup).trans (beq_iff_eq.mp hz)
        exact (hset _ _ hlookup hzero).elim
      case isFalse =>
        split
        case h_1 offset hfound =>
          refine .bind (ih shared) fun found hrest => .pure ?_
          obtain ⟨place, hplace, h⟩ := hrest
          refine ⟨place, hplace, .cons (fun ha set hlookup => ?_) h⟩
          rw [hclass ha set hlookup, hplace _ _ hfound]
        case h_2 hnone =>
          refine .bind .any fun offset _ => .bind (ih ((classSet, offset) :: shared))
            fun found hrest => .pure ?_
          obtain ⟨place, hplace, h⟩ := hrest
          refine ⟨place, fun set other hother => ?_, .cons ?_ h⟩
          · have hne : set ≠ classSet := by
              rintro rfl
              rw [hnone] at hother
              cases hother
            refine hplace set other ?_
            rwa [List.lookup_cons, beq_false_of_ne hne]
          · intro ha set hlookup
            rw [hclass ha set hlookup, hplace classSet offset List.lookup_cons_self]

end Catalog

namespace Container

namespace Written

variable {options : Options} {classes : List ClassDef} {bytes : List UInt8} {c : Catalog}
  {tables : IdTables} {placed : Catalog.Placed} {s : Stream} {k : Contents} {x : Records}
  (w : Written options classes bytes c tables placed s)
  (hk : ContentsOf options tables placed bytes k)
  (hx : x.Of placed (k .annotationsDirectory) c)

include hk hx

/-- The directories of a container go by sets. -/
theorem records_goBySet (hl : c.writeSection options tables { base := tables.stop } = .ok placed s)
    (hclasses : placed.catalog.classes = c.classes) : ∃ place : UInt32 → UInt32,
      ∀ d r, (d, r) ∈ c.classes.zip x.classes →
        placed.catalog.GoesBySet place d r.annotations := by
  obtain ⟨_, _, _, _, directories, _, -, -, -, -, -, -, ⟨_, _, hran, -⟩, -, -, hoffsets⟩ :=
    Catalog.shows_writeSection.of_ok hl
  obtain ⟨place, -, hplace⟩ := Catalog.answers_bySet
    (fun set offset h => hk.data.annotationSets.ne_zero h) _ _ _ _ _ hran
  rw [hclasses, ← hoffsets, ← hx.directories, List.forall₂_map_right_iff] at hplace
  exact ⟨place, fun d r hr => of_mem_zip hplace hr⟩

/-! ## 2. What has one directory -/

include w

/-- **An entry of a directory leads to a member of the class.** -/
theorem owner_of_entry {d : ClassDef} {directory : DirectoryRecord}
    (h : x.HasDirectory c bytes d directory) {index offset : UInt32} :
    ((index, offset) ∈ directory.fields → ∀ f : FieldRef,
      c.fields.get? index.toNat = some f → f.owner = d.descriptor) ∧
    ((index, offset) ∈ directory.methods ∨ (index, offset) ∈ directory.parameters →
      ∀ m : MethodRef, c.methods.get? index.toNat = some m → m.owner = d.descriptor) := by
  obtain ⟨-, hfields, hmethods, hparameters⟩ := w.directory_has hk hx h
  refine ⟨fun hentry f hf => ?_, fun hentry m hm => ?_⟩
  · obtain ⟨g, -, hg, -⟩ := hfields.of_entry hentry
    obtain rfl : f = d.fieldRef g := Option.some.inj (hf.symm.trans hg)
    rfl
  · obtain ⟨n, hn⟩ : ∃ n, c.methods.get? index.toNat = some (d.methodRef n) := by
      rcases hentry with hentry | hentry
      · obtain ⟨n, -, hn, -⟩ := hmethods.of_entry hentry
        exact ⟨n, hn⟩
      · obtain ⟨n, -, hn, -⟩ := hparameters.of_entry hentry
        exact ⟨n, hn⟩
    obtain rfl : m = d.methodRef n := Option.some.inj (hm.symm.trans hn)
    rfl

/-- **A directory that another class has** is of a class without annotated members. -/
theorem noMembers_of_hasDirectory {d e : ClassDef} (hd : d ∈ c.classes) (he : e ∈ c.classes)
    (hne : d ≠ e) {directory : DirectoryRecord} (h : x.HasDirectory c bytes d directory)
    (h' : x.HasDirectory c bytes e directory) : d.hasMemberAnnotations = false := by
  obtain ⟨hfields, hown, hparameters⟩ := w.directory_enters hk hx hd h
  have hother : d.descriptor ≠ e.descriptor := fun hsame =>
    hne (((w.kept d).mp hd).unique ((w.kept e).mp he) hsame)
  rw [← Bool.not_eq_true, ClassDef.hasMemberAnnotations_iff]
  rintro (⟨f, hf, hset⟩ | ⟨m, hm, hset | hset⟩)
  · obtain ⟨index, offset, hindex, hentry⟩ := (hfields f hf hset).found
    exact hother ((w.owner_of_entry hk hx h').1 hentry _ hindex)
  · obtain ⟨index, offset, hindex, hentry⟩ := (hown m hm hset).found
    exact hother ((w.owner_of_entry hk hx h').2 (.inl hentry) _ hindex)
  · obtain ⟨index, offset, hindex, hentry⟩ := (hparameters m hm hset).found
    exact hother ((w.owner_of_entry hk hx h').2 (.inr hentry) _ hindex)

/-- **Different classes have one directory** exactly if they alone are annotated, and alike. -/
theorem directories_shared (hkeys : ∀ d : ClassDef, d.Kept classes →
      ∀ a, d.HasAnnotation a → (key a).length < Keyed.limit)
    (hl : c.writeSection options tables { base := tables.stop } = .ok placed s)
    {d e : ClassDef} (hne : d ≠ e) (hd : d ∈ c.classes) (he : e ∈ c.classes)
    {offset other : UInt32} (h : x.DirectoryAt c d offset) (ho : x.DirectoryAt c e other) :
    offset = other ∧ offset ≠ 0 ↔ d.AnnotatedAlone ∧ e.AnnotatedAlone ∧
      AnnotationSet.sorted d.annotations = AnnotationSet.sorted e.annotations := by
  constructor
  · rintro ⟨rfl, hz⟩
    have had := hx.annotated_of_directoryAt h hz
    have hae := hx.annotated_of_directoryAt ho hz
    obtain ⟨-, directory, hread⟩ := hx.read_directory hk h had
    have hdirectory : x.HasDirectory c bytes d directory := ⟨offset, h, hz, hread⟩
    have hsame : x.HasDirectory c bytes e directory := ⟨offset, ho, hz, hread⟩
    have hd' := w.noMembers_of_hasDirectory hk hx hd he hne hdirectory hsame
    have he' := w.noMembers_of_hasDirectory hk hx he hd hne.symm hsame hdirectory
    have hnd : d.annotations ≠ [] := had.resolve_right (by rw [hd']; exact Bool.false_ne_true)
    have hnae : e.annotations ≠ [] := hae.resolve_right (by rw [he']; exact Bool.false_ne_true)
    refine ⟨⟨hnd, hd'⟩, ⟨hnae, he'⟩, ?_⟩
    exact ((w.sets_shared hk hkeys hx).same (.ofClass d) (.ofClass e) _ _ ⟨hd, hnd⟩ ⟨he, hnae⟩
      (.ofClass hdirectory) (.ofClass hsame)).mp rfl
  · rintro ⟨had, hae, hsets⟩
    obtain ⟨hz, directory, hread⟩ := hx.read_directory hk h (.inl had.1)
    have hset := (w.directory_has hk hx ⟨offset, h, hz, hread⟩).classSet.2 had.1
    have hset' : placed.catalog.setOffsetOf e.annotations = .ok directory.classSet := by
      rw [Catalog.setOffsetOf, ← hsets]
      exact hset
    obtain ⟨place, hplace⟩ := records_goBySet hk hx hl w.classes_eq
    obtain ⟨r, hr, rfl⟩ := h
    obtain ⟨r', hr', rfl⟩ := ho
    rw [hplace d r hr had _ hset, hplace e r' hr' hae _ hset']
    exact ⟨rfl, hplace d r hr had _ hset ▸ hz⟩

end Written

/-! ## 3. Containers -/

/-- **The data items of a container are shared exactly by content**: type lists by their types,
arrays by their values, annotations by what they say, sets by their annotations in the order of
types, and lists of sets by their sets.  Directories are shared only by classes of which no member
is annotated. -/
structure Records.SharedByContent (x : Records) (c : Catalog) (data : List UInt8) : Prop where
  typeLists : SharedBy (TypeListOwner.In c) TypeListOwner.types (x.TypeListAt c)
  staticValues : SharedBy (· ∈ c.classes) ClassDef.staticValues (x.StaticValuesAt c)
  noValues : ∀ d offset, x.StaticValuesAt c d offset → (offset = 0 ↔ d.staticValues = [])
  annotations : SharedBy (fun o => SetOwner.HasAnnotation c o) Prod.snd (x.AnnotationAt c data)
  sets : SharedBy (SetOwner.In c) (fun o => AnnotationSet.sorted o.annotations) (x.SetAt c data)
  setLists : SharedBy (HasSetList c)
    (fun m => m.2.parameterAnnotations.map AnnotationSet.sorted) (x.SetListAt c data)
  directory : ∀ d ∈ c.classes, ∃ offset, x.DirectoryAt c d offset
  directories : ∀ d ∈ c.classes, ∀ e ∈ c.classes, d ≠ e → ∀ offset other,
    x.DirectoryAt c d offset → x.DirectoryAt c e other →
      (offset = other ∧ offset ≠ 0 ↔ d.AnnotatedAlone ∧ e.AnnotatedAlone ∧
        AnnotationSet.sorted d.annotations = AnnotationSet.sorted e.annotations)

/-- **Sharing.**  In a container that has been written, whatever the digests are, what leads to data
items leads to the same one exactly if the contents are the same.  The keys of contents are taken to
fit in a buffer. -/
theorem items_shared_by_content {sign : List UInt8 → Vector UInt8 20} {sum : List UInt8 → UInt32}
    {options : Options} {classes : List ClassDef} {bytes : List UInt8}
    (h : writeWith sign sum options classes = .ok bytes)
    (hkeys : ∀ d : ClassDef, d.Kept classes → (key d.staticValues).length < Keyed.limit ∧
      ∀ a, d.HasAnnotation a → (key a).length < Keyed.limit) :
    ∃ c x, Catalog.discover options classes = .ok c ∧ c.classes = ClassDef.inOrder classes ∧
      Records.read bytes = .ok x ∧ x.SharedByContent c bytes := by
  obtain ⟨i, c, tables, placed, s, -, hl, rfl⟩ := image_of_write h
  have w := written_of_laid sign sum hl
  obtain ⟨k, hk⟩ := Image.contents_of_laid sign sum hl
  obtain ⟨x, hread, hx⟩ := w.readRecords hk
  have hannotations := fun d hd => (hkeys d hd).2
  obtain ⟨hvalues, hnone⟩ := w.staticValues_shared hk (fun d hd => (hkeys d hd).1) hx
  refine ⟨c, x, w.discovered, Catalog.classes_of_discover w.discovered, hread, ?_⟩
  exact {
    typeLists := w.typeLists_shared hx
    staticValues := hvalues
    noValues := hnone
    annotations := w.annotations_shared hk hannotations hx
    sets := w.sets_shared hk hannotations hx
    setLists := w.setLists_shared hk hannotations hx
    directory := fun d hd => by
      obtain ⟨r, hr⟩ := exists_zip_of_mem hx.classes hd
      exact ⟨_, r, hr, rfl⟩
    directories := fun d hd e he hne offset other h ho =>
      w.directories_shared hk hx hannotations hl.laid hne hd he h ho }

/-- A class with an interface, a constant, and the given annotations on itself. -/
def markedClass (descriptor : String) (annotations : List Annotation) : ClassDef where
  descriptor
  annotations
  interfaces := ["LRun;"]
  fields := [{ name := "size", type := "I", flags := ⟨8⟩, value? := some (.int 1) }]

/-- An annotation without elements. -/
def marker (type : String) : Annotation where
  visibility := .runtime
  content := { type, elements := [] }

/-- Two classes with the same annotations, but not in the same order. -/
def markedClasses : List ClassDef :=
  [markedClass "LA;" [marker "LX;", marker "LW;"], markedClass "LB;" [marker "LW;", marker "LX;"]]

theorem isOk_write_markedClasses : (Container.write {} markedClasses).isOk = true := by
  refine isOk_write ?_
  simp only [Image.ofClasses, Catalog.discover, Catalog.freeze, Catalog.freezeNames,
    Catalog.freezeProtos, Catalog.freezeMembers, Pool.freezeBy, Pool.freezeWith,
    Catalog.writeSection, Catalog.writeDirectories, MapList.write, MapList.parts, MapList.entries,
    mergeSort_eq_sortUpTo]
  -- values and sets are sorted where classes are added, and sets where directories are written
  delta Catalog.addClass Catalog.addClassAlone Catalog.addFieldOf Catalog.addMethodOf
    Catalog.addParameters Catalog.addSet Collector.addSet Collector.addAnnotations
    Catalog.writeDirectoriesOf Catalog.writeDirectoriesOf._f Catalog.directory
    Catalog.attachedFields Catalog.attachedMethod Catalog.ownSet? Catalog.parameterSets?
    Catalog.setOffsetOf
  simp only [AnnotationSet.sorted_eq_sortUpTo, sortAttached_eq_sortUpTo, ClassDef.staticValues,
    ClassDef.sortedStaticFields, mergeSort_eq_sortUpTo]
  decide +kernel

theorem markedClasses_keys (d : ClassDef) (hd : d.Kept markedClasses) :
    (key d.staticValues).length < Keyed.limit ∧
      ∀ a, d.HasAnnotation a → (key a).length < Keyed.limit := by
  have hvalues : ∀ d ∈ markedClasses, (key d.staticValues).length < Keyed.limit := by
    simp only [ClassDef.staticValues, ClassDef.sortedStaticFields, mergeSort_eq_sortUpTo]
    decide +kernel
  have hshort : ∀ d ∈ markedClasses,
      ∀ set ∈ d.annotations :: d.fields.map (·.annotations) ++
        d.methods.flatMap (fun m => m.annotations :: m.parameterAnnotations),
          ∀ a ∈ set, (key a).length < Keyed.limit := by
    decide +kernel
  have hmem := ClassDef.definition?_mem hd
  refine ⟨hvalues d hmem, ?_⟩
  rintro a ⟨set, hset, ha⟩
  exact hshort d hmem set (mem_of_hasSet hset) a ha

/-- The two classes have one directory. -/
theorem items_shared_by_content_markedClasses :
    ∃ bytes, write {} markedClasses = .ok bytes ∧
      (∀ d : ClassDef, d.Kept markedClasses → (key d.staticValues).length < Keyed.limit ∧
        ∀ a, d.HasAnnotation a → (key a).length < Keyed.limit) ∧
      ∃ c x, Catalog.discover {} markedClasses = .ok c ∧
        c.classes = ClassDef.inOrder markedClasses ∧ Records.read bytes = .ok x ∧
        x.SharedByContent c bytes ∧
        ∃ offset, offset ≠ 0 ∧ ∀ d ∈ markedClasses, x.DirectoryAt c d offset := by
  obtain ⟨bytes, h⟩ := exists_of_isOk isOk_write_markedClasses
  obtain ⟨c, x, hc, hclasses, hread, hshared⟩ := items_shared_by_content h markedClasses_keys
  refine ⟨bytes, h, markedClasses_keys, c, x, hc, hclasses, hread, hshared, ?_⟩
  let first := markedClass "LA;" [marker "LX;", marker "LW;"]
  let second := markedClass "LB;" [marker "LW;", marker "LX;"]
  have hfirst : first ∈ c.classes := by
    rw [hclasses]
    exact ClassDef.mem_inOrder.mpr rfl
  have hsecond : second ∈ c.classes := by
    rw [hclasses]
    exact ClassDef.mem_inOrder.mpr rfl
  have hsets : AnnotationSet.sorted first.annotations =
      AnnotationSet.sorted second.annotations := by
    rw [AnnotationSet.sorted_eq_sortUpTo]
    rfl
  have hne : first ≠ second := fun he => absurd (congrArg ClassDef.descriptor he) (by decide)
  obtain ⟨offset, ho⟩ := hshared.directory first hfirst
  obtain ⟨other, ho'⟩ := hshared.directory second hsecond
  obtain ⟨rfl, hz⟩ := (hshared.directories first hfirst second hsecond hne _ _ ho ho').mpr
    ⟨⟨List.cons_ne_nil _ _, rfl⟩, ⟨List.cons_ne_nil _ _, rfl⟩, hsets⟩
  exact ⟨offset, hz, by simpa [markedClasses] using ⟨ho, ho'⟩⟩

end Container

end Dalvik
