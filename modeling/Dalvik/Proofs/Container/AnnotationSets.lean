/-
# Sets of annotations read back

A set is found at an offset, and has the offsets of its annotations; a list of sets has the offsets
of the sets of parameters.  Annotations, sets and lists are shared by content, so what is at an
offset has the key of what was looked up.  It is the same, because the keys tell apart: for
annotations as long as their keys are no longer than any buffer, and for sets and lists because the
counts in their keys are those of what has been written, and so fit.

A set is written in the order of the types of its annotations, by their names.  That is the order of
the indices of the types.

* `readSet` and `readSlots` are the readers, and `SetIs` and `SlotIs` say what they are to find;
* `Written.set_at` and `Written.slots_at` are the statements for sets and for lists of sets.
-/
import Dalvik.Proofs.Container.Layout
import Dalvik.Proofs.Value.Key
import Dalvik.Proofs.Value.Reading

namespace Dalvik

/-! ## 1. The readers -/

/-- An annotation as a container has it. -/
structure AnnotationFound where
  visibility : Visibility
  content : IndexedAnnotation

/-- Reads an annotation with its visibility. -/
def AnnotationFound.read : Reader AnnotationFound := do
  let code ← Cursor.field UInt8
  match Visibility.ofCode? code.toNat with
  | some visibility => return { visibility, content := ← IndexedAnnotation.read }
  | none => throw (.malformed s!"Visibility {code} is not known")

namespace Container

/-- Reads a count and words. -/
def readWords : Reader (List UInt32) := do
  let count ← Cursor.field UInt32
  Reader.times count.toNat (Cursor.field UInt32)

/-- Reads the annotation at an offset. -/
def readAnnotation (data : List UInt8) (offset : UInt32) : Except Error AnnotationFound :=
  Reader.answerAt data offset.toNat AnnotationFound.read

/-- Reads the annotations of the set at an offset. -/
def readSet (data : List UInt8) (offset : UInt32) : Except Error (List AnnotationFound) := do
  let offsets ← Reader.answerAt data offset.toNat readWords
  offsets.mapM <| readAnnotation data

/-- Reads the set at an offset, zero for none. -/
def readSet? (data : List UInt8) (offset : UInt32) : Except Error (Option (List AnnotationFound)) :=
  if offset == 0 then .ok none else (readSet data offset).map some

/-- What a list of sets has for one parameter. -/
structure SlotFound where
  offset : UInt32
  /-- The set at the offset, if it is not zero. -/
  set? : Option (List AnnotationFound)

/-- Follows the offset of a set in a list. -/
def SlotFound.follow (data : List UInt8) (offset : UInt32) : Except Error SlotFound := do
  return { offset, set? := ← readSet? data offset }

/-- Reads the list of sets at an offset. -/
def readSlots (data : List UInt8) (offset : UInt32) : Except Error (List SlotFound) := do
  let offsets ← Reader.answerAt data offset.toNat readWords
  offsets.mapM (SlotFound.follow data)

/-! ## 2. What is to be found -/

/-- **The annotation found** is the given one, with indices for what it refers to. -/
structure AnnotationIs (ix : Indexer) (a : Annotation) (x : AnnotationFound) : Prop where
  visibility : x.visibility = a.visibility
  content : a.content.indexed ix = .ok x.content

/-- **The annotations found** are those of a set, in the order of the indices of their types; those
of one type are in the order of the set. -/
structure SetIs (ix : Indexer) (set : List Annotation) (found : List AnnotationFound) : Prop where
  ascending : found.Pairwise fun x y => x.content.type ≤ y.content.type
  same : ∃ order : List Annotation, order.Perm set ∧
    (∀ type, (order.filter fun a => a.type == type) = set.filter fun a => a.type == type) ∧
    List.Forall₂ (AnnotationIs ix) order found

/-- **The slot found** is that of a parameter with the given annotations: it leads to their set, and
if there are none it has the offset of the empty set, or zero if that is not wanted. -/
structure SlotIs (options : Options) (ix : Indexer) (empty : UInt32) (set : List Annotation)
    (x : SlotFound) : Prop where
  absent : set = [] → x.offset = empty ∧ x.set? = if options.emptySet then some [] else none
  present : set ≠ [] → ∃ found, x.set? = some found ∧ SetIs ix set found

end Container

/-! ## 3. Sets in order -/

namespace AnnotationSet

theorem sorted_perm (set : List Annotation) : (sorted set).Perm set :=
  List.mergeSort_perm ..

theorem sorted_eq_nil {set : List Annotation} : sorted set = [] ↔ set = [] := by
  rw [← List.length_eq_zero_iff, (sorted_perm set).length_eq, List.length_eq_zero_iff]

theorem pairwise_sorted (set : List Annotation) :
    (sorted set).Pairwise fun a b => (Text.compareUnits a.type b.type).isLE = true :=
  pairwise_mergeSort_isLE set

theorem sorted_eq_sortUpTo : sorted = fun set =>
    sortUpTo (fun a b => Text.unitsLE a.type b.type) set.length set :=
  funext fun _ => mergeSort_eq_sortUpTo _ _

/-- **Sorting leaves annotations of one type in their order.** -/
theorem filter_sorted (set : List Annotation) (type : String) :
    ((sorted set).filter fun a => a.type == type) = set.filter fun a => a.type == type := by
  refine filter_mergeSort (fun _ _ _ => Std.TransCmp.isLE_trans)
    (fun a b => isLE_total a.type b.type) fun a b ha hb => ?_
  have hself : Text.compareUnits type type = .eq := Std.ReflCmp.compare_self
  rw [Text.unitsLE, beq_iff_eq.mp ha, beq_iff_eq.mp hb, hself]
  rfl

end AnnotationSet

namespace Catalog

variable {options : Container.Options} {classes : List ClassDef} {c : Catalog}

/-- **The indices of types are in the order of their names.** -/
theorem index_le_of_type (h : discover options classes = .ok c) {a b : String} {i j : UInt32}
    (hi : c.indexer (.type a) = .ok i) (hj : c.indexer (.type b) = .ok j)
    (hab : (Text.compareUnits a b).isLE = true) : i ≤ j := by
  have hs := inStep_of_discover h
  have hplaces := hs.types.compare_index? (inFormatOrder_of_discover h).types
    Std.LawfulEqCmp.eq_of_compare (place_of_index hs.types (fun _ => rfl) hi)
    (place_of_index hs.types (fun _ => rfl) hj)
  rw [← hplaces, Nat.isLE_compare] at hab
  exact UInt32.le_iff_toNat_le.mpr hab

/-- The offset that a list of sets has for one of them; an empty one has that of the empty set. -/
def slotOffset (c : Catalog) (set : List Annotation) : Except Error UInt32 :=
  if set.isEmpty then .ok c.emptySetOffset else c.annotationSets.offsetOf set

theorem setListParts_eq (c : Catalog) (sets : List (List Annotation)) :
    c.setListParts sets = tableParts (sets.map c.slotOffset) :=
  rfl

theorem slotOffset_sorted {set : List Annotation} (h : set ≠ []) :
    c.slotOffset (AnnotationSet.sorted set) = c.setOffsetOf set :=
  if_neg fun he => h (AnnotationSet.sorted_eq_nil.mp (List.isEmpty_iff.mp he))

/-- If there is an empty set, its offset is that of the empty set. -/
theorem emptySetOffset_eq {offset : UInt32} (h : c.annotationSets.offsetOf [] = .ok offset) :
    c.emptySetOffset = offset := by
  unfold SharedItems.offsetOf at h
  split at h
  case h_1 found hfound =>
    rw [emptySetOffset, hfound]
    exact Except.ok.inj h
  case h_2 => cases h

end Catalog

namespace Reached

variable {options : Container.Options} {classes : List ClassDef}

/-- The annotations of a set that is reached are those of classes. -/
theorem length_key_lt {set : List Annotation} (h : Reached options classes (.annotationSet set))
    (hkeys : ∀ d : ClassDef, d.Kept classes →
      ∀ a, d.HasAnnotation a → (key a).length < Keyed.limit) :
    ∀ a ∈ set, (key a).length < Keyed.limit := by
  intro a ha
  obtain ⟨d, hd, hannotation⟩ := (h.of_annotationSet a ha).of_annotationItem
  exact hkeys d hd a hannotation

/-- The empty set is reached only if it is wanted, for no class has it. -/
theorem wants_emptySet (h : Reached options classes (.annotationSet [])) :
    options.emptySet = true := by
  generalize he : Entity.annotationSet [] = e at h
  cases h with
  | named hd hn =>
    have howns := hn.owns (by rw [← he]; exact id)
    cases howns with
    | annotationSet hs hne =>
      exact (hne (AnnotationSet.sorted_eq_nil.mp (Entity.annotationSet.inj he).symm)).elim
    | _ => cases he
  | implied _ hi =>
    subst he
    cases hi
  | emptySet ho => exact ho

end Reached

/-! ## 4. Items -/

theorem EncodedAnnotation.type_of_indexed {ix : Indexer} {a : EncodedAnnotation}
    {x : IndexedAnnotation} (h : a.indexed ix = .ok x) : ix (.type a.type) = .ok x.type := by
  cases a
  obtain ⟨type, htype, h⟩ := bind_eq_ok.mp h
  obtain ⟨elements, -, h⟩ := bind_eq_ok.mp h
  obtain rfl := pure_eq_ok.mp h
  exact htype

/-- The type of an annotation that has been found is the index of its type. -/
theorem Container.AnnotationIs.type_eq {ix : Indexer} {a : Annotation} {x : AnnotationFound}
    (h : AnnotationIs ix a x) : ix (.type a.type) = .ok x.content.type :=
  EncodedAnnotation.type_of_indexed h.content

theorem Visibility.ofCode?_code (v : Visibility) : ofCode? v.code.toNat = some v := by
  cases v <;> decide

namespace Container

/-- An annotation is read back. -/
theorem takes_annotation {ix : Indexer} {a : Annotation} {data : List UInt8}
    (h : Part.joined (a.parts ix) = .ok data) :
    ∃ x, AnnotationIs ix a x ∧ ∀ pos, Takes AnnotationFound.read pos data x := by
  obtain ⟨_, _, hfirst, hrest, rfl⟩ := Part.joined_cons_eq_ok.mp h
  obtain rfl := Except.ok.inj hfirst
  obtain ⟨content, hcontent, htakes⟩ := IndexedAnnotation.takes_read hrest
  refine ⟨⟨a.visibility, content⟩, ⟨rfl, hcontent⟩, fun pos => ?_⟩
  refine (IndexedValue.takes_byte pos a.visibility.code).bind ?_
  rw [Visibility.ofCode?_code]
  exact (htakes _).map

/-- A table of words is read back. -/
theorem takes_table {words : List (Except Error UInt32)} {data : List UInt8}
    (h : Part.joined (Catalog.tableParts words) = .ok data) :
    ∃ values : List UInt32, List.Forall₂ (fun word value => word = .ok value) words values ∧
      words.length < 0x100000000 ∧ ∀ pos, Takes readWords pos data values := by
  obtain ⟨_, _, hcount, hrest, rfl⟩ := Part.joined_cons_eq_ok.mp h
  obtain ⟨count, hn, rfl⟩ := map_eq_ok.mp hcount
  obtain ⟨values, hvalues, rfl⟩ := Part.joined_words hrest
  have hlength := Bytes.narrow32_eq_ok hn
  refine ⟨values, hvalues, hlength ▸ count.toNat_lt, fun pos => (Takes.field pos count).bind ?_⟩
  rw [hlength, hvalues.length_eq]
  have htimes := Takes.times_map (f := id) (fun v (_ : v ∈ values) q => Takes.field q v)
    (pos + (LittleEndian.encode count).length)
  rwa [List.map_id] at htimes

theorem readSet?_eq {data : List UInt8} {offset : UInt32} (hne : offset ≠ 0)
    {found : List AnnotationFound} (h : readSet data offset = .ok found) :
    readSet? data offset = .ok (some found) := by
  rw [readSet?, if_neg (by simpa using hne), h]
  rfl

namespace Written

variable {options : Options} {classes : List ClassDef} {bytes : List UInt8} {c : Catalog}
  {tables : IdTables} {placed : Catalog.Placed} {s : Stream} {k : Contents}

theorem indexer_eq (w : Written options classes bytes c tables placed s) :
    placed.catalog.indexer = c.indexer := by
  obtain ⟨o, ho, -⟩ := w.layers.shared
  rw [ho]
  rfl

section

variable (w : Written options classes bytes c tables placed s)
  (hk : ContentsOf options tables placed bytes k)
  (hkeys : ∀ d : ClassDef, d.Kept classes → ∀ a, d.HasAnnotation a → (key a).length < Keyed.limit)

include w hk

/-- **An annotation** is at the offset that the catalog has for it. -/
theorem annotation_at {a : Annotation} (ha : (key a).length < Keyed.limit) {offset : UInt32}
    (h : placed.catalog.annotations.offsetOf a = .ok offset) :
    ∃ x, AnnotationIs c.indexer a x ∧ readAnnotation bytes offset = .ok x := by
  obtain ⟨b, -, hkey, i, hi, rfl, hlaid⟩ := hk.data.annotations.of_offsetOf h
  obtain rfl := (selfDelimiting _).injective ha hkey.symm
  have hparts := hlaid.bytes
  rw [w.indexer_eq] at hparts
  obtain ⟨x, hx, htakes⟩ := takes_annotation hparts
  exact ⟨x, hx, answerAt_of_takes (htakes _) (hk.stand .annotationItem i hi)⟩

include hkeys

/-- A set in the order of its types has the offset of each of its annotations. -/
theorem offsets_at {set : List Annotation} (hset : ∀ a ∈ set, (key a).length < Keyed.limit)
    {offset : UInt32} (h : placed.catalog.annotationSets.offsetOf set = .ok offset) :
    set.length < 0x100000000 ∧ offset ≠ 0 ∧
      ∃ offsets, List.Forall₂ (fun a o => placed.catalog.annotations.offsetOf a = .ok o) set
        offsets ∧ Reader.answerAt bytes offset.toNat readWords = .ok offsets := by
  obtain ⟨b, hb, hkey, i, hi, rfl, hlaid⟩ := hk.data.annotationSets.of_offsetOf h
  have hreached := w.serves.stored _ (Catalog.stored_annotationSet.mpr hb)
  obtain rfl := (selfDelimiting _).delimits.list_of_key hset
    (hreached.length_key_lt hkeys) hkey.symm
  obtain ⟨offsets, hoffsets, hlength, htakes⟩ := takes_table hlaid.bytes
  rw [List.forall₂_map_left_iff] at hoffsets
  rw [List.length_map] at hlength
  exact ⟨hlength, hlaid.ne_zero, offsets, hoffsets,
    answerAt_of_takes (htakes _) (hk.stand .annotationSet i hi)⟩

/-- **A set in the order of its types** is at the offset that the catalog has for it. -/
theorem annotations_at {set : List Annotation} (hset : ∀ a ∈ set, (key a).length < Keyed.limit)
    {offset : UInt32} (h : placed.catalog.annotationSets.offsetOf set = .ok offset) :
    set.length < 0x100000000 ∧ offset ≠ 0 ∧
      ∃ found, List.Forall₂ (AnnotationIs c.indexer) set found ∧
        readSet bytes offset = .ok found := by
  obtain ⟨hlength, hne, offsets, hoffsets, hread⟩ := w.offsets_at hk hkeys hset h
  have hfound := (List.forall₂_and_left set offsets).mpr ⟨hset, hoffsets⟩
  obtain ⟨found, hfound, hfollow⟩ := exists_forall₂ hfound fun a o h => w.annotation_at hk h.1 h.2
  exact ⟨hlength, hne, found, hfound, bind_eq_ok.mpr ⟨offsets, hread, mapM_eq_ok.mpr hfollow⟩⟩

/-- **A set** is found in the order of the indices of its types. -/
theorem set_at {d : ClassDef} (hd : d.Kept classes) {set : List Annotation} (hs : d.HasSet set)
    {offset : UInt32} (h : placed.catalog.setOffsetOf set = .ok offset) :
    offset ≠ 0 ∧ ∃ found, SetIs c.indexer set found ∧ readSet bytes offset = .ok found := by
  have hshort : ∀ a ∈ AnnotationSet.sorted set, (key a).length < Keyed.limit := fun a ha =>
    hkeys d hd a ⟨set, hs, (AnnotationSet.sorted_perm set).mem_iff.mp ha⟩
  obtain ⟨-, hne, found, hfound, hread⟩ := w.annotations_at hk hkeys hshort h
  refine ⟨hne, found, ⟨?_, _, AnnotationSet.sorted_perm set, AnnotationSet.filter_sorted set,
    hfound⟩, hread⟩
  refine pairwise_of_forall₂ hfound (AnnotationSet.pairwise_sorted set) ?_
  intro a b x y hx hy hab
  exact Catalog.index_le_of_type w.discovered hx.type_eq hy.type_eq hab

/-! ## 5. Lists of sets -/

/-- The sets of a list that is reached are not too long, for they have been written. -/
theorem short_of_setList {sets : List (List Annotation)}
    (h : Reached options classes (.setList sets)) : ∀ set ∈ sets,
      set.length < Keyed.limit ∧ ∀ a ∈ set, (key a).length < Keyed.limit := by
  intro set hset
  by_cases hne : set = []
  · rw [hne]
    exact ⟨by decide, by simp⟩
  · have hreached := h.of_setList set hset hne
    have hshort := hreached.length_key_lt hkeys
    obtain ⟨offset, ho⟩ := SharedItems.offsetOf_of_has
      (Catalog.holds_annotationSet.mp (w.serves.holds _ hreached))
    have hlength := (w.annotations_at hk hkeys hshort ho).1
    exact ⟨Nat.lt_trans hlength (by decide), hshort⟩

omit hk in
/-- Without the wish for it there is no empty set. -/
theorem emptySetOffset_eq_zero (h : options.emptySet = false) :
    placed.catalog.emptySetOffset = 0 := by
  have hnot : ¬ placed.catalog.annotationSets.Has [] := by
    rintro ⟨b, hb, hkey⟩
    have hreached := w.serves.stored _ (Catalog.stored_annotationSet.mpr hb)
    obtain rfl := (selfDelimiting _).delimits.list_of_key
      (hreached.length_key_lt hkeys) (by simp) hkey
    exact Bool.false_ne_true (h.symm.trans hreached.wants_emptySet)
  rw [Catalog.emptySetOffset, SharedItems.index?_of_not_has hnot]
  rfl

/-- **A slot** leads to the set of its parameter. -/
theorem slot_at {d : ClassDef} (hd : d.Kept classes) {m : Method} (hm : m ∈ d.methods)
    (hp : m.hasParameterAnnotations = true) {set : List Annotation}
    (hs : set ∈ m.parameterAnnotations) {offset : UInt32}
    (h : placed.catalog.slotOffset (AnnotationSet.sorted set) = .ok offset) :
    ∃ x, SlotIs options c.indexer placed.catalog.emptySetOffset set x ∧
      SlotFound.follow bytes offset = .ok x := by
  unfold Catalog.slotOffset at h
  split at h
  case isTrue he =>
    obtain rfl := AnnotationSet.sorted_eq_nil.mp (List.isEmpty_iff.mp he)
    obtain rfl := Except.ok.inj h
    refine ⟨⟨_, if options.emptySet then some [] else none⟩, ⟨fun _ => ⟨rfl, rfl⟩,
      fun hne => (hne rfl).elim⟩, bind_eq_ok.mpr ⟨_, ?_, rfl⟩⟩
    split
    case isTrue ho =>
      have hreached : Reached options classes (.annotationSet []) := .emptySet ho hd hm hp
      obtain ⟨offset, hoffset⟩ := SharedItems.offsetOf_of_has
        (Catalog.holds_annotationSet.mp (w.serves.holds _ hreached))
      obtain ⟨-, hne, found, hfound, hread⟩ := w.annotations_at hk hkeys (by simp) hoffset
      obtain rfl := List.forall₂_nil_left_iff.mp hfound
      rw [Catalog.emptySetOffset_eq hoffset]
      exact readSet?_eq hne hread
    case isFalse hno =>
      rw [w.emptySetOffset_eq_zero hkeys (by simpa using hno)]
      rfl
  case isFalse he =>
    have hset : d.HasSet set := .inr (.inr ⟨m, hm, .inr hs⟩)
    obtain ⟨hne, found, hfound, hread⟩ := w.set_at hk hkeys hd hset h
    refine ⟨⟨offset, some found⟩, ⟨fun hnil => ?_, fun _ => ⟨found, rfl, hfound⟩⟩,
      bind_eq_ok.mpr ⟨some found, readSet?_eq hne hread, rfl⟩⟩
    exact (he (List.isEmpty_iff.mpr (AnnotationSet.sorted_eq_nil.mpr hnil))).elim

/-- The list of sets of a method has the offset of each of them. -/
theorem setList_at {d : ClassDef} (hd : d.Kept classes) {m : Method} (hm : m ∈ d.methods)
    (hp : m.hasParameterAnnotations = true) {offset : UInt32}
    (h : placed.catalog.setLists.offsetOf (m.parameterAnnotations.map AnnotationSet.sorted) =
      .ok offset) :
    ∃ offsets, List.Forall₂ (fun set o =>
        placed.catalog.slotOffset (AnnotationSet.sorted set) = .ok o) m.parameterAnnotations
          offsets ∧ Reader.answerAt bytes offset.toNat readWords = .ok offsets := by
  obtain ⟨b, hb, hkey, i, hi, rfl, hlaid⟩ := hk.data.setLists.of_offsetOf h
  have hreached := w.serves.stored _ (Catalog.stored_setList.mpr hb)
  obtain rfl := (selfDelimiting _).delimits.list.list_of_key
    (w.short_of_setList hk hkeys (.named hd (.owned (.setList hm hp))))
    (w.short_of_setList hk hkeys hreached) hkey.symm
  have hparts := hlaid.bytes
  rw [Catalog.setListParts_eq] at hparts
  obtain ⟨offsets, hoffsets, -, htakes⟩ := takes_table hparts
  rw [List.map_map, List.forall₂_map_left_iff] at hoffsets
  exact ⟨offsets, hoffsets, answerAt_of_takes (htakes _) (hk.stand .annotationSetRefList i hi)⟩

/-- **A list of sets** is at the offset that the catalog has for it, with a slot for each
parameter. -/
theorem slots_at {d : ClassDef} (hd : d.Kept classes) {m : Method} (hm : m ∈ d.methods)
    (hp : m.hasParameterAnnotations = true) {offset : UInt32}
    (h : placed.catalog.setLists.offsetOf (m.parameterAnnotations.map AnnotationSet.sorted) =
      .ok offset) :
    ∃ slots, List.Forall₂ (SlotIs options c.indexer placed.catalog.emptySetOffset)
      m.parameterAnnotations slots ∧ readSlots bytes offset = .ok slots := by
  obtain ⟨offsets, hoffsets, hread⟩ := w.setList_at hk hkeys hd hm hp h
  have hslots := (List.forall₂_and_left m.parameterAnnotations offsets).mpr
    ⟨fun _ hs => hs, hoffsets⟩
  obtain ⟨slots, hslots, hfollow⟩ :=
    exists_forall₂ hslots fun set o h => w.slot_at hk hkeys hd hm hp h.1 h.2
  exact ⟨slots, hslots, bind_eq_ok.mpr ⟨offsets, hread, mapM_eq_ok.mpr hfollow⟩⟩

end

end Written

end Container

end Dalvik
