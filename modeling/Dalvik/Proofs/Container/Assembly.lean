/-
# What a container is put together from

A container that has been written is the header, the records of the id tables and the data section,
one after the other.  The header says where each table is and how many records it has, and the
records are there, one for each item of the pool.  The data section is at its offset, so whatever an
item's offset was in the stream, it is at that offset of the container.

* `Table.Records` says of a table that the data has its records, and `Table.Records.read` that a
  reader that follows the table finds them;
* `Image.assembleWith_eq` is the output in the end, whatever the digests are;
* `Container.Written` collects what is known of a container, and `written_of_write` shows it.
-/
import Dalvik.Container.Image
import Dalvik.Proofs.Container.Writing
import Dalvik.Proofs.Header

namespace Dalvik

/-! ## 1. Tables -/

namespace Part

/-- Items in parts join as their parts do. -/
theorem joined_flatMap_eq_ok {α : Type} {parts : α → List Part} {items : List α}
    {data : List UInt8} : joined (items.flatMap parts) = .ok data ↔
      joined (items.map fun a => joined (parts a)) = .ok data := by
  induction items generalizing data with
  | nil => rfl
  | cons a rest ih =>
    rw [List.flatMap_cons, List.map_cons, joined_append_eq_ok, joined_cons_eq_ok]
    simp only [ih]

/-- Words join to their bytes. -/
theorem joined_words {words : List (Except Error UInt32)} {data : List UInt8}
    (h : joined (words.map fun word => word.map LittleEndian.encode) = .ok data) :
    ∃ values : List UInt32, List.Forall₂ (fun word value => word = .ok value) words values ∧
      values.flatMap LittleEndian.encode = data := by
  obtain ⟨chunks, hchunks, rfl⟩ := joined_eq_ok.mp h
  rw [List.forall₂_map_left_iff] at hchunks
  obtain ⟨values, hvalues, hencoded⟩ := exists_forall₂ hchunks fun _ _ => map_eq_ok.mp
  refine ⟨values, hvalues, ?_⟩
  have hmap : values.map LittleEndian.encode = chunks := by
    rw [← List.forall₂_eq_eq_eq, List.forall₂_map_left_iff]
    exact hencoded.flip
  rw [List.flatMap_def, hmap]

/-- The part has a fixed length, if it is there. -/
def Sized (part : Part) (size : Nat) : Prop :=
  ∀ data, part = .ok data → data.length = size

theorem sized_map {α : Type} [LittleEndian α] (value : Except Error α) :
    Sized (value.map LittleEndian.encode) (LittleEndian.width α) := by
  intro data h
  obtain ⟨a, -, rfl⟩ := map_eq_ok.mp h
  exact LittleEndian.length_encode a

theorem sized_joined {parts : List Part} {sizes : List Nat}
    (h : List.Forall₂ Sized parts sizes) : Sized (joined parts) sizes.sum := by
  induction h with
  | nil =>
    rintro data ⟨⟩
    rfl
  | cons hp _ ih =>
    intro data hd
    obtain ⟨x, y, hx, hy, rfl⟩ := joined_cons_eq_ok.mp hd
    rw [List.length_append, hp x hx, ih y hy, List.sum_cons]

end Part

namespace Table

variable {α β : Type} {t : Table} {data : List UInt8} {write : α → Part} {items : List α}

/-- The data has the records of the items where the table says. -/
structure Records (t : Table) (data : List UInt8) (write : α → Part) (items : List α) : Prop where
  count : t.count.toNat = items.length
  stand : ∃ records, List.Forall₂ (fun a record => write a = .ok record) items records ∧
    Stands data t.offset.toNat records.flatten

/-- **A reader that follows the table** finds what each record is read as. -/
theorem Records.read {r : Reader β} {P : α → β → Prop} (h : t.Records data write items)
    (hr : ∀ a record, write a = .ok record →
      ∃ found, P a found ∧ ∀ pos, Takes r pos record found) :
    ∃ found, List.Forall₂ P items found ∧
      Reader.answerAt data t.offset.toNat (Reader.times t.count.toNat r) = .ok found := by
  obtain ⟨records, hrecords, hs⟩ := h.stand
  obtain ⟨found, hfound, htakes⟩ := exists_forall₂ hrecords hr
  refine ⟨found, hfound, ?_⟩
  rw [h.count, hfound.length_eq]
  exact answerAt_of_takes (.times htakes _) hs

theorem place_eq_ok {next stop : UInt32} {count recordSize : Nat}
    (h : place next count recordSize = .ok (t, stop)) :
    t.count.toNat = count ∧ stop.toNat = next.toNat + count * recordSize ∧
      (count = 0 → t.offset = 0) ∧ (count ≠ 0 → t.offset = next) := by
  obtain ⟨narrow, hn, h⟩ := bind_eq_ok.mp h
  have hcount := Bytes.narrow32_eq_ok hn
  split at h
  case isTrue hz =>
    cases pure_eq_ok.mp h
    have hzero : count = 0 := by
      rw [← hcount, beq_iff_eq.mp hz]
      rfl
    subst hzero
    refine ⟨rfl, by omega, fun _ => rfl, fun hne => (hne rfl).elim⟩
  case isFalse hz =>
    dsimp only at h
    split at h
    case isTrue hlt =>
      cases pure_eq_ok.mp h
      refine ⟨hcount, ?_, fun hc => ?_, fun _ => rfl⟩
      · rw [Nat.toUInt32_eq, UInt32.toNat_ofNat_of_lt' hlt, hcount]
      · refine (hz ?_).elim
        rw [beq_iff_eq, ← UInt32.toNat_inj, hcount, hc]
        rfl
    case isFalse => exact (throw_ne_ok h).elim

theorem length_records {recordSize : Nat} {records : List (List UInt8)}
    (h : List.Forall₂ (fun a record => write a = .ok record) items records)
    (hsize : ∀ a record, write a = .ok record → record.length = recordSize) :
    records.flatten.length = items.length * recordSize := by
  induction h with
  | nil => rw [List.flatten_nil, List.length_nil, List.length_nil, Nat.zero_mul]
  | cons hr _ ih =>
    rw [List.flatten_cons, List.length_append, ih, hsize _ _ hr, List.length_cons, Nat.succ_mul,
      Nat.add_comm]

/-- A table that has been placed has the records that stand there, and ends where they end. -/
theorem records_of_place {next stop : UInt32} {count recordSize : Nat} {bytes rest : List UInt8}
    (h : place next count recordSize = .ok (t, stop)) (hcount : items.length = count)
    (hsize : ∀ a record, write a = .ok record → record.length = recordSize)
    (hj : Part.joined (items.map write) = .ok bytes) (hs : Stands data next.toNat (bytes ++ rest)) :
    t.Records data write items ∧ Stands data stop.toNat rest ∧
      stop.toNat = next.toNat + bytes.length := by
  obtain ⟨hn, hstop, hzero, hoffset⟩ := place_eq_ok h
  obtain ⟨records, hrecords, rfl⟩ := Part.joined_eq_ok.mp hj
  rw [List.forall₂_map_left_iff] at hrecords
  have hlength := length_records hrecords hsize
  rw [hcount] at hlength
  refine ⟨⟨hn.trans hcount.symm, records, hrecords, ?_⟩, ?_, by rw [hstop, hlength]⟩
  · by_cases hc : count = 0
    · -- an empty table has the offset zero, and nothing has to stand there
      have hnil : records.flatten = [] := by
        rw [← List.length_eq_zero_iff, hlength, hc, Nat.zero_mul]
      rw [hnil]
      exact ⟨[], data, rfl, by rw [hzero hc]; rfl⟩
    · rw [hoffset hc]
      exact hs.left
  · rw [hstop, ← hlength]
    exact hs.right

end Table

/-! ## 2. The output -/

namespace Output

/-- Writing replaces as many bytes as it writes. -/
theorem write_of_data {o : Output} {front old back data : List UInt8} {offset : Nat}
    (h : o.data = front ++ (old ++ back)) (hf : front.length = offset)
    (hl : old.length = data.length) :
    o.write offset data = .ok { o with data := front ++ (data ++ back) } := by
  have hle : offset + data.length ≤ o.size := by
    rw [size, h, List.length_append, List.length_append]
    omega
  have hback : (front ++ (old ++ back)).drop (offset + data.length) = back := by
    rw [← hf, ← hl, ← List.append_assoc, ← List.length_append, List.drop_left]
  rw [write_eq, if_pos hle, h, List.take_left' hf, hback, List.append_assoc]

end Output

namespace Image

section Digests

variable (sign : List UInt8 → Vector UInt8 20) (sum : List UInt8 → UInt32)

/-- A header with its digests, for a container that ends with `tail` after it. -/
def sealedHeader (h : Header) (tail : List UInt8) : Header :=
  let covered := h.words.flatMap LittleEndian.encode ++ tail
  let signature := sign covered
  { h with checksum := sum (signature.toList ++ covered), signature }

/-- The header with its digests, the records and the data section, one after the other. -/
def bytes (i : Image) : List UInt8 :=
  (sealedHeader sign sum i.header (i.ids ++ i.data)).encode ++ (i.ids ++ i.data)

/-- **The container in the end** is the header, the records and the data section, whatever was in
the output before. -/
theorem assembleWith_eq {i : Image} {o : Output} (ho : o.size = i.size)
    (hsize : i.size = Header.size + (i.ids.length + i.data.length))
    (hoff : i.header.dataOff.toNat = Header.size + i.ids.length) :
    i.assembleWith sign sum o = .ok { o with data := i.bytes sign sum } := by
  have hlength : o.data.length = Header.size + (i.ids.length + i.data.length) := ho.trans hsize
  obtain ⟨front, rest, hfront, hrest⟩ : ∃ front rest, o.data = front ++ rest ∧
      front.length = Header.size :=
    ⟨_, _, (List.take_append_drop Header.size o.data).symm, List.length_take_of_le (by omega)⟩
  obtain ⟨old, later, rfl, hold⟩ : ∃ old later, rest = old ++ later ∧
      old.length = i.ids.length := by
    refine ⟨_, _, (List.take_append_drop i.ids.length rest).symm, List.length_take_of_le ?_⟩
    rw [hfront, List.length_append] at hlength
    omega
  have hlaterLength : later.length = i.data.length := by
    rw [hfront, List.length_append, List.length_append] at hlength
    omega
  have hids : o.write Header.size i.ids = .ok { o with data := front ++ (i.ids ++ later) } :=
    Output.write_of_data hfront hrest hold
  have hlater : front ++ (i.ids ++ later) = front ++ i.ids ++ (later ++ []) := by
    rw [List.append_nil, List.append_assoc]
  have hdata : Output.write { o with data := front ++ (i.ids ++ later) } i.header.dataOff.toNat
      i.data = .ok { o with data := front ++ i.ids ++ (i.data ++ []) } := by
    refine Output.write_of_data hlater ?_ hlaterLength
    rw [List.length_append, hrest, hoff]
  have hheader : i.header.write (front ++ i.ids ++ (i.data ++ [])) =
      .ok (i.header.encode ++ (i.ids ++ i.data)) := by
    have hlen : ¬ (front ++ i.ids ++ (i.data ++ [])).length < Header.size := by
      simp only [List.length_append, hrest]
      omega
    rw [Header.write_eq, if_neg hlen, List.append_nil, List.append_assoc, List.drop_left' hrest]
  have hsealed := Header.sealedWith_encode sign sum i.header (i.ids ++ i.data)
  rw [assembleWith, hids]
  refine bind_eq_ok.mpr ⟨_, rfl, bind_eq_ok.mpr ⟨_, hdata, bind_eq_ok.mpr ⟨_, hheader, ?_⟩⟩⟩
  exact bind_eq_ok.mpr ⟨_, hsealed, rfl⟩

end Digests

end Image

/-! ## 3. The layers -/

/-- Every answer of the step has the property. -/
def StepAnswers {α : Type} (x : StreamWriter α) (P : α → Prop) : Prop :=
  ∀ s a t, x s = .ok a t → P a

namespace StepAnswers

variable {α β : Type} {x y : StreamWriter α} {f : α → StreamWriter β} {P : α → Prop}
  {Q : β → Prop}

theorem any : StepAnswers x fun _ => True :=
  fun _ _ _ _ => trivial

theorem pure {a : α} (h : P a) : StepAnswers (pure a) P := by
  intro s b t hb
  obtain ⟨rfl, -⟩ := statePure_eq_ok.mp hb
  exact h

theorem bind (hx : StepAnswers x P) (hf : ∀ a, P a → StepAnswers (f a) Q) :
    StepAnswers (x >>= f) Q := by
  intro s b t h
  obtain ⟨a, u, ha, hb⟩ := stateBind_eq_ok.mp h
  exact hf a (hx s a u ha) u b t hb

theorem lift (x : Except Error α) :
    StepAnswers (MonadLift.monadLift x : StreamWriter α) fun a => x = .ok a :=
  fun _ _ _ h => (stateLift_eq_ok.mp h).1

/-- A choice between two first steps. -/
theorem ite_bind {p : Prop} [Decidable p] (hx : p → StepAnswers x P) (hy : ¬ p → StepAnswers y P)
    (hf : ∀ a, P a → StepAnswers (f a) Q) : StepAnswers (if p then x >>= f else y >>= f) Q := by
  split
  case isTrue h => exact bind (hx h) hf
  case isFalse h => exact bind (hy h) hf

end StepAnswers

namespace Catalog

variable {options : Container.Options} {c : Catalog}

/-- The offsets of the items that are shared by content, kind by kind. -/
structure SharedOffsets where
  typeLists : List UInt32
  encodedArrays : List UInt32
  annotations : List UInt32
  annotationSets : List UInt32
  setLists : List UInt32

/-- The catalog with the offsets of its items, and nothing else changed. -/
def withOffsets (c : Catalog) (o : SharedOffsets) : Catalog :=
  { c with
    typeLists := c.typeLists.setOffsets o.typeLists
    encodedArrays := c.encodedArrays.setOffsets o.encodedArrays
    annotations := c.annotations.setOffsets o.annotations
    annotationSets := c.annotationSets.setOffsets o.annotationSets
    setLists := c.setLists.setOffsets o.setLists }

/-- Code is written without looking at the offsets of shared items. -/
theorem writeCode_withOffsets {options : Container.Options} (o : SharedOffsets) :
    (c.withOffsets o).writeCode options = c.writeCode options := by
  have hof : ∀ all before, (c.withOffsets o).writeCodeOf options before all =
      c.writeCodeOf options before all := by
    intro all
    induction all with
    | nil => exact fun _ => rfl
    | cons x rest ih =>
      intro before
      simp only [writeCodeOf, ih]
      rfl
  exact hof _ []

/-- As many directories are answered as there are classes. -/
theorem answers_writeDirectoriesOf (all : List ClassDef) (shared : List (UInt32 × UInt32)) :
    StepAnswers (c.writeDirectoriesOf shared all) fun found =>
      found.offsets.length = all.length := by
  induction all generalizing shared with
  | nil => exact .pure rfl
  | cons d rest ih =>
    have hadd : ∀ classSet (later : UInt32 → List (UInt32 × UInt32)), StepAnswers (do
        let offset ← Stream.item 4 [c.directory classSet d]
        return Directories.add offset (← c.writeDirectoriesOf (later offset) rest)) fun found =>
          found.offsets.length = rest.length + 1 :=
      fun _ _ => .bind .any fun _ _ => .bind (ih _) fun _ h => .pure (congrArg (· + 1) h)
    have hreuse : ∀ offset, StepAnswers (do
        return Directories.reuse offset (← c.writeDirectoriesOf shared rest)) fun found =>
          found.offsets.length = rest.length + 1 :=
      fun _ => .bind (ih _) fun _ h => .pure (congrArg (· + 1) h)
    rw [writeDirectoriesOf]
    refine .ite_bind (fun _ => .any) (fun _ => .any) fun classSet _ => ?_
    split
    · exact hadd classSet fun _ => shared
    · dsimp only
      split
      · exact hreuse 0
      · split
        · exact hreuse _
        · exact hadd classSet fun offset => (classSet, offset) :: shared

/-- What is known of the data section: the strings, the type lists, the code and the class data
were written at the offsets that are answered, and nothing came over them. -/
structure Layers (options : Container.Options) (c : Catalog) (placed : Placed) (t : Stream) :
    Prop where
  strings : Stream.Ran c.writeStrings placed.strings t
  shared : ∃ o : SharedOffsets, placed.catalog = c.withOffsets o ∧
    Stream.Ran (Stream.items 4 (c.typeLists.items.map c.typeListParts)) o.typeLists t
  directories : placed.directories.length = c.classes.length
  classData : ∃ code, Stream.Ran (c.writeCode options) code t ∧
    Stream.Ran (c.writeClassData code) placed.classData t

theorem layers_of_ok {tables : IdTables} {s t : Stream} {placed : Placed}
    (h : c.writeSection options tables s = .ok placed t) : c.Layers options placed t := by
  obtain ⟨c₁, c₂, c₃, c₄, directories, code, hs, h₁, h₂, h₃, h₄, h₅, hd, hc, hm, ho⟩ :=
    shows_writeSection.of_ok h
  have hitems := StepExtends.items
  obtain ⟨typeLists, htypeLists, rfl⟩ := (Stream.Shows.bind (hitems 4 _) fun _ => .pure _).shows h₁
  obtain ⟨encodedArrays, -, rfl⟩ := (Stream.Shows.bind (hitems 1 _) fun _ => .pure _).shows h₂
  obtain ⟨annotations, -, rfl⟩ := (Stream.Shows.bind (hitems 1 _) fun _ => .pure _).shows h₃
  obtain ⟨annotationSets, -, rfl⟩ := (Stream.Shows.bind (hitems 4 _) fun _ => .pure _).shows h₄
  obtain ⟨setLists, -, he⟩ := (Stream.Shows.bind (hitems 4 _) fun _ => .pure _).shows h₅
  obtain ⟨_, _, hd, -⟩ := hd
  let o : SharedOffsets := ⟨typeLists, encodedArrays, annotations, annotationSets, setLists⟩
  have hplaced : placed.catalog = c.withOffsets o := he.symm
  have hclasses : placed.catalog.classes = c.classes := by rw [← he]
  exact {
    strings := hs
    shared := ⟨o, hplaced, htypeLists⟩
    directories := by rw [ho, answers_writeDirectoriesOf _ _ _ _ _ hd, hclasses]
    classData := by
      rw [hplaced, writeCode_withOffsets] at hc
      rw [hplaced] at hm
      exact ⟨code, hc, hm⟩ }

end Catalog

/-! ## 4. The id tables -/

namespace Catalog

variable {c : Catalog}

theorem typeHalf_eq (descriptor : String) : c.typeHalf descriptor =
    (c.indexer (.type descriptor) >>= narrowIndex "type").map LittleEndian.encode := by
  rw [typeHalf]
  cases c.indexer (.type descriptor) with
  | error => rfl
  | ok index => cases narrowIndex "type" index <;> rfl

theorem protoHalf_eq (p : Proto) : c.protoHalf p =
    (c.indexer (.proto p) >>= narrowIndex "proto").map LittleEndian.encode := by
  rw [protoHalf]
  cases c.indexer (.proto p) with
  | error => rfl
  | ok index => cases narrowIndex "proto" index <;> rfl

theorem sized_typeHalf (descriptor : String) : Part.Sized (c.typeHalf descriptor) 2 := by
  rw [typeHalf_eq]
  exact Part.sized_map _

theorem sized_protoHalf (p : Proto) : Part.Sized (c.protoHalf p) 2 := by
  rw [protoHalf_eq]
  exact Part.sized_map _

theorem sized_stringWord (value : String) : Part.Sized (c.stringWord value) 4 :=
  Part.sized_map (c.indexer (.string value))

theorem sized_protoParts (p : Proto) : Part.Sized (Part.joined (c.protoParts p)) 12 := by
  have hsizes : List.Forall₂ Part.Sized (c.protoParts p) [4, 4, 4] :=
    .cons (Part.sized_map _) (.cons (Part.sized_map _) (.cons (Part.sized_map _) .nil))
  exact Part.sized_joined hsizes

theorem sized_fieldParts (f : FieldRef) : Part.Sized (Part.joined (c.fieldParts f)) 8 := by
  have hsizes : List.Forall₂ Part.Sized (c.fieldParts f) [2, 2, 4] :=
    .cons (sized_typeHalf _) (.cons (sized_typeHalf _) (.cons (Part.sized_map _) .nil))
  exact Part.sized_joined hsizes

theorem sized_methodParts (m : MethodRef) : Part.Sized (Part.joined (c.methodParts m)) 8 := by
  have hsizes : List.Forall₂ Part.Sized (c.methodParts m) [2, 2, 4] :=
    .cons (sized_typeHalf _) (.cons (sized_protoHalf _) (.cons (Part.sized_map _) .nil))
  exact Part.sized_joined hsizes

theorem sized_recordParts (d : ClassDef) (offsets : ClassDef.ItemOffsets) :
    Part.Sized (Part.joined (d.recordParts c.indexer offsets)) ClassDef.recordSize := by
  have hword : ∀ word : Except Error UInt32, Part.Sized (word.map LittleEndian.encode) 4 :=
    Part.sized_map
  have hsizes : List.Forall₂ Part.Sized (d.recordParts c.indexer offsets)
      [4, 4, 4, 4, 4, 4, 4, 4] :=
    .cons (hword _) (.cons (hword _) (.cons (hword _) (.cons (hword _) (.cons (hword _)
      (.cons (hword _) (.cons (hword _) (.cons (hword _) .nil)))))))
  exact Part.sized_joined hsizes

/-- The definition of a class that has been written is a record of eight words. -/
theorem classPart_eq_ok {d : ClassDef} {annotations classData : UInt32} {data : List UInt8}
    (h : c.classPart d annotations classData = .ok data) :
    ∃ interfaces staticValues : UInt32, c.typeListOffset d.interfaces = .ok interfaces ∧
      c.encodedArrayOffset d.staticValues = .ok staticValues ∧
      Part.joined (d.recordParts c.indexer
        { interfaces, annotations, classData, staticValues }) = .ok data := by
  obtain ⟨interfaces, hi, h⟩ := bind_eq_ok.mp h
  obtain ⟨staticValues, hv, h⟩ := bind_eq_ok.mp h
  exact ⟨interfaces, staticValues, hi, hv, mapError_eq_ok.mp h⟩

theorem sized_classPart (d : ClassDef) (annotations classData : UInt32) :
    Part.Sized (c.classPart d annotations classData) ClassDef.recordSize := by
  intro data h
  obtain ⟨interfaces, staticValues, -, -, h⟩ := classPart_eq_ok h
  exact sized_recordParts d _ data h

end Catalog

/-- The data has the records of all tables, where the tables say. -/
structure IdTables.Hold (t : IdTables) (data : List UInt8) (placed : Catalog.Placed) : Prop where
  strings : t.strings.Records data (fun offset => .ok (LittleEndian.encode offset)) placed.strings
  types : t.types.Records data placed.catalog.stringWord placed.catalog.types.items
  protos : t.protos.Records data (fun p => Part.joined (placed.catalog.protoParts p))
    placed.catalog.protos.items
  fields : t.fields.Records data (fun f => Part.joined (placed.catalog.fieldParts f))
    placed.catalog.fields.items
  methods : t.methods.Records data (fun m => Part.joined (placed.catalog.methodParts m))
    placed.catalog.methods.items
  classes : t.classes.Records data (fun (d, annotations, classData) =>
    placed.catalog.classPart d annotations classData)
      (placed.catalog.classes.zip (placed.directories.zip placed.classData))

/-- **The records fill the tables**: they stand where the tables say, and end where these end. -/
theorem IdTables.hold_of_joined {options : Container.Options} {c : Catalog} {t : IdTables}
    {placed : Catalog.Placed} {s : Stream} {data ids rest : List UInt8} (h : ofCatalog c = .ok t)
    (hl : c.Layers options placed s)
    (hj : Part.joined (placed.catalog.recordParts placed.strings placed.directories
      placed.classData) = .ok ids) (hs : Stands data Header.size (ids ++ rest)) :
    t.Hold data placed ∧ Header.size + ids.length = t.stop.toNat := by
  obtain ⟨o, ho, -⟩ := hl.shared
  obtain ⟨code, -, hdata⟩ := hl.classData
  have hcount := hl.strings.items.length_eq
  rw [List.length_map] at hcount
  have hclassData : c.classes.length = placed.classData.length :=
    (Stream.Ran.mapM (fun _ => .inside _ ClassDef.appends_writeData) hdata).length_eq
  have hpools : placed.catalog.types = c.types ∧ placed.catalog.protos = c.protos ∧
      placed.catalog.fields = c.fields ∧ placed.catalog.methods = c.methods ∧
      placed.catalog.classes = c.classes := by
    rw [ho]
    exact ⟨rfl, rfl, rfl, rfl, rfl⟩
  obtain ⟨ht, hp, hf, hm, hd⟩ := hpools
  obtain ⟨⟨strings, stop₁⟩, h₁, h⟩ := bind_eq_ok.mp h
  obtain ⟨⟨types, stop₂⟩, h₂, h⟩ := bind_eq_ok.mp h
  obtain ⟨⟨protos, stop₃⟩, h₃, h⟩ := bind_eq_ok.mp h
  obtain ⟨⟨fields, stop₄⟩, h₄, h⟩ := bind_eq_ok.mp h
  obtain ⟨⟨methods, stop₅⟩, h₅, h⟩ := bind_eq_ok.mp h
  obtain ⟨⟨classes, stop₆⟩, h₆, h⟩ := bind_eq_ok.mp h
  obtain rfl := pure_eq_ok.mp h
  obtain ⟨_, _, hj₁, hclasses, rfl⟩ := Part.joined_append_eq_ok.mp hj
  obtain ⟨_, _, hj₂, hmethods, rfl⟩ := Part.joined_append_eq_ok.mp hj₁
  obtain ⟨_, _, hj₃, hfields, rfl⟩ := Part.joined_append_eq_ok.mp hj₂
  obtain ⟨_, _, hj₄, hprotos, rfl⟩ := Part.joined_append_eq_ok.mp hj₃
  obtain ⟨_, _, hstrings, htypes, rfl⟩ := Part.joined_append_eq_ok.mp hj₄
  simp only [List.append_assoc] at hs
  obtain ⟨hstrings, hs, hn₁⟩ := Table.records_of_place h₁ hcount.symm
    (fun _ _ hr => Except.ok.inj hr ▸ LittleEndian.length_encode _) hstrings hs
  obtain ⟨htypes, hs, hn₂⟩ := Table.records_of_place h₂ (by rw [ht])
    Catalog.sized_stringWord htypes hs
  obtain ⟨hprotos, hs, hn₃⟩ := Table.records_of_place h₃ (by rw [hp])
    Catalog.sized_protoParts (Part.joined_flatMap_eq_ok.mp hprotos) hs
  obtain ⟨hfields, hs, hn₄⟩ := Table.records_of_place h₄ (by rw [hf])
    Catalog.sized_fieldParts (Part.joined_flatMap_eq_ok.mp hfields) hs
  obtain ⟨hmethods, hs, hn₅⟩ := Table.records_of_place h₅ (by rw [hm])
    Catalog.sized_methodParts (Part.joined_flatMap_eq_ok.mp hmethods) hs
  have hlength : (placed.catalog.classes.zip
      (placed.directories.zip placed.classData)).length = c.classes.length := by
    rw [List.length_zip, List.length_zip, ← hclassData, hl.directories, hd, Nat.min_self,
      Nat.min_self]
  obtain ⟨hclasses, -, hn₆⟩ := Table.records_of_place h₆ hlength
    (fun _ => Catalog.sized_classPart _ _ _) hclasses hs
  refine ⟨⟨hstrings, htypes, hprotos, hfields, hmethods, hclasses⟩, ?_⟩
  have hstart : Header.size.toUInt32.toNat = Header.size := rfl
  simp only [List.length_append]
  omega

/-! ## 5. The container -/

theorem Image.checkIds_eq_ok {tables : IdTables} {ids : List UInt8}
    (h : checkIds tables ids = .ok ()) : Header.size + ids.length = tables.stop.toNat := by
  unfold checkIds at h
  dsimp only at h
  split at h
  case isTrue he => exact beq_iff_eq.mp he
  case isFalse => cases h

/-- What is known of an image of classes: its parts, and that they fit each other. -/
structure Image.Laid (options : Container.Options) (classes : List ClassDef) (i : Image)
    (c : Catalog) (tables : IdTables) (placed : Catalog.Placed) (s : Stream) : Prop where
  discovered : Catalog.discover options classes = .ok c
  places : IdTables.ofCatalog c = .ok tables
  laid : c.writeSection options tables { base := tables.stop } = .ok placed s
  ids : Part.joined (placed.catalog.recordParts placed.strings placed.directories
    placed.classData) = .ok i.ids
  stop : Header.size + i.ids.length = tables.stop.toNat
  data : i.data = s.data.toList
  small : s.data.size < 0x100000000
  header : ∃ dataSize fileSize, i.header = tables.header options placed.map dataSize fileSize ∧
    dataSize.toNat = s.data.size
  size : i.size = Header.size + (i.ids.length + i.data.length)

theorem Image.laid_of_classes {options : Container.Options} {classes : List ClassDef} {i : Image}
    (h : ofClasses options classes = .ok i) :
    ∃ c tables placed s, Laid options classes i c tables placed s := by
  obtain ⟨c, hc, h⟩ := bind_eq_ok.mp h
  obtain ⟨tables, ht, h⟩ := bind_eq_ok.mp h
  split at h
  case h_1 => exact (throw_ne_ok h).elim
  case h_2 placed s hs =>
    obtain ⟨ids, hids, h⟩ := bind_eq_ok.mp h
    obtain ⟨_, hcheck, h⟩ := bind_eq_ok.mp h
    obtain ⟨dataSize, hsize, h⟩ := bind_eq_ok.mp h
    have hstop := checkIds_eq_ok hcheck
    have hdata := Bytes.narrow32_eq_ok hsize
    dsimp only at h
    split at h
    case isTrue => exact (throw_ne_ok (bind_eq_ok.mp h).choose_spec.1).elim
    case isFalse hlt =>
      obtain rfl := pure_eq_ok.mp h
      refine ⟨c, tables, placed, s, ?_⟩
      exact {
        discovered := hc
        places := ht
        laid := hs
        ids := hids
        stop := hstop
        data := rfl
        small := hdata ▸ UInt32.toNat_lt dataSize
        header := ⟨_, _, rfl, hdata⟩
        size := by
          have hfile : (tables.stop.toNat + dataSize.toNat).toUInt32.toNat =
              tables.stop.toNat + dataSize.toNat :=
            UInt32.toNat_ofNat_of_lt' (Nat.lt_of_not_le hlt)
          refine hfile.trans ?_
          rw [hdata, ← hstop, ← Array.length_toList, Nat.add_assoc] }

section Digests

variable {sign : List UInt8 → Vector UInt8 20} {sum : List UInt8 → UInt32}

/-- An image of classes is assembled in any output of its size. -/
theorem Container.assemble_of_image {options : Container.Options} {classes : List ClassDef}
    {i : Image} {o : Output} (h : Image.ofClasses options classes = .ok i) (ho : o.size = i.size) :
    i.assembleWith sign sum o = .ok { o with data := i.bytes sign sum } := by
  obtain ⟨c, tables, placed, s, hl⟩ := Image.laid_of_classes h
  obtain ⟨dataSize, fileSize, hheader, -⟩ := hl.header
  have hoff : i.header.dataOff.toNat = Header.size + i.ids.length := by
    rw [hheader, hl.stop]
    rfl
  exact Image.assembleWith_eq sign sum ho hl.size hoff

/-- **An image of classes is written**, and the bytes of the container are those of the image,
sealed. -/
theorem Container.write_of_image {options : Container.Options} {classes : List ClassDef} {i : Image}
    (h : Image.ofClasses options classes = .ok i) :
    Container.writeWith sign sum options classes = .ok (i.bytes sign sum) := by
  have hassembled : i.assembleWith sign sum (.inMemory i.size) = .ok _ :=
    assemble_of_image h (List.length_replicate ..)
  exact bind_eq_ok.mpr ⟨i, h, bind_eq_ok.mpr ⟨_, hassembled, rfl⟩⟩

theorem Container.image_of_write {options : Container.Options} {classes : List ClassDef}
    {bytes : List UInt8} (h : Container.writeWith sign sum options classes = .ok bytes) :
    ∃ i c tables placed s, Image.ofClasses options classes = .ok i ∧
      Image.Laid options classes i c tables placed s ∧ bytes = i.bytes sign sum := by
  obtain ⟨i, hi, -⟩ := bind_eq_ok.mp h
  obtain ⟨c, tables, placed, s, hl⟩ := Image.laid_of_classes hi
  exact ⟨i, c, tables, placed, s, hi, hl, Except.ok.inj (h.symm.trans (write_of_image hi))⟩

/-- Nothing fails behind the layout. -/
theorem Container.isOk_write {options : Container.Options} {classes : List ClassDef}
    (h : (Image.ofClasses options classes).isOk = true) :
    (Container.writeWith sign sum options classes).isOk = true := by
  obtain ⟨i, hi⟩ := exists_of_isOk h
  rw [write_of_image hi]
  rfl

/-- Where the tables are according to a header. -/
def IdTables.ofHeader (h : Header) : IdTables where
  strings := { count := h.stringIdsSize, offset := h.stringIdsOff }
  types := { count := h.typeIdsSize, offset := h.typeIdsOff }
  protos := { count := h.protoIdsSize, offset := h.protoIdsOff }
  fields := { count := h.fieldIdsSize, offset := h.fieldIdsOff }
  methods := { count := h.methodIdsSize, offset := h.methodIdsOff }
  classes := { count := h.classDefsSize, offset := h.classDefsOff }
  stop := h.dataOff

/-- **What is known of a container** that has been written: it begins with a header that says where
the tables of the catalog are, the tables have their records there, and the data section follows
them. -/
structure Container.Written (options : Container.Options) (classes : List ClassDef)
    (bytes : List UInt8) (c : Catalog) (tables : IdTables) (placed : Catalog.Placed) (s : Stream) :
    Prop where
  discovered : Catalog.discover options classes = .ok c
  header : ∃ header, Header.read bytes = .ok header ∧ IdTables.ofHeader header = tables
  hold : tables.Hold bytes placed
  layers : c.Layers options placed s
  serves : placed.catalog.Serves options classes
  start : Header.size ≤ s.base.toNat
  base : s.base = tables.stop
  data : Stands bytes s.base.toNat s.data.toList
  small : s.data.size < 0x100000000

variable (sign sum)

theorem Image.Laid.read_header {options : Container.Options} {classes : List ClassDef} {i : Image}
    {c : Catalog} {tables : IdTables} {placed : Catalog.Placed} {s : Stream}
    (hl : Image.Laid options classes i c tables placed s) :
    Header.read (i.bytes sign sum) = .ok (sealedHeader sign sum i.header (i.ids ++ i.data)) := by
  obtain ⟨dataSize, fileSize, hheader, -⟩ := hl.header
  rw [bytes, hheader]
  exact Header.read_encode (Header.wellFormed_magicOf rfl rfl rfl) _

theorem Container.written_of_laid {options : Container.Options} {classes : List ClassDef}
    {i : Image} {c : Catalog} {tables : IdTables} {placed : Catalog.Placed} {s : Stream}
    (hl : Image.Laid options classes i c tables placed s) :
    Written options classes (i.bytes sign sum) c tables placed s := by
  have hlayers := Catalog.layers_of_ok hl.laid
  have hbase : s.base = tables.stop := (Catalog.shows_writeSection.appends _ _ _ hl.laid).base
  have hstop := hl.stop
  rw [← hbase] at hstop
  obtain ⟨dataSize, fileSize, hheader, -⟩ := hl.header
  have hids : Stands (i.bytes sign sum) Header.size (i.ids ++ i.data) :=
    ⟨_, [], by rw [List.append_nil]; rfl, Header.length_encode _⟩
  exact {
    discovered := hl.discovered
    header := by
      refine ⟨_, hl.read_header sign sum, ?_⟩
      rw [hheader]
      rfl
    hold := (IdTables.hold_of_joined hl.places hlayers hl.ids hids).1
    layers := hlayers
    serves := Catalog.serves_of_writeSection (Catalog.serves_of_discover hl.discovered) hl.laid
    start := by omega
    base := hbase
    data := by
      rw [← hstop, ← hl.data]
      exact hids.right
    small := hl.small }

variable {sign sum}

theorem Container.written_of_write {options : Container.Options} {classes : List ClassDef}
    {bytes : List UInt8} (h : Container.writeWith sign sum options classes = .ok bytes) :
    ∃ c tables placed s, Written options classes bytes c tables placed s := by
  obtain ⟨i, c, tables, placed, s, -, hl, rfl⟩ := image_of_write h
  exact ⟨c, tables, placed, s, written_of_laid sign sum hl⟩

end Digests

end Dalvik
