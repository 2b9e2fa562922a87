/-
# Everything in its place

A container is the header, the records of the id tables and the data section.  Where the tables are
is computed from the sizes of the pools before a record has been written, and the data section
starts where they are to end; that the records do end there is not seen in the program but checked
by it.  The check never fails: each record has the size that has been counted for it.

* `Table.Chain` says that tables follow each other without a gap, and `chain_of_catalog` that those
  of a catalog do;
* `IdTables.hold_of_joined` is why the records fill them, so `Image.checkIds_of_joined`;
* `Container.ContentsOf` says what the items of a container are and that they follow each other,
  and `contents_of_laid` that the items of a container that has been written do;
* `parts_in_place` is the whole statement about the layout.
-/
import Dalvik.Proofs.Container.Assembly
import Dalvik.Proofs.Container.Contents
import Dalvik.Proofs.Container.IdReading

namespace Dalvik

/-! ## 1. Items without gaps -/

namespace Item

/-- Bytes one after the other, as items. -/
def row : (place : Nat) → List (List UInt8) → List Item
  | _, [] => []
  | place, bytes :: rest => ⟨place.toUInt32, bytes⟩ :: row (place + bytes.length) rest

theorem map_bytes_row (place : Nat) (records : List (List UInt8)) :
    (row place records).map bytes = records := by
  induction records generalizing place with
  | nil => rfl
  | cons data rest ih => rw [row, List.map_cons, ih]

variable {place : Nat} {records : List (List UInt8)}

theorem between_row (h : place + records.flatten.length < 0x100000000) :
    Between place (place + records.flatten.length) (row place records) := by
  induction records generalizing place with
  | nil => exact .nil (Nat.le_refl _)
  | cons data rest ih =>
    rw [List.flatten_cons, List.length_append] at h ⊢
    have hstart : start ⟨place.toUInt32, data⟩ = place :=
      UInt32.toNat_ofNat_of_lt' (Nat.lt_of_le_of_lt (Nat.le_add_right ..) h)
    have hlater : place + data.length + rest.flatten.length < 0x100000000 := by omega
    have hrest := ih hlater
    rw [Nat.add_assoc] at hrest
    refine (Between.singleton ?_ ?_).append hrest
    · rw [hstart]
    · rw [stop, hstart]

theorem stands_row {whole : List UInt8} (h : place + records.flatten.length < 0x100000000)
    (hs : Stands whole place records.flatten) :
    ∀ i ∈ row place records, Stands whole i.start i.bytes := by
  induction records generalizing place with
  | nil => simp [row]
  | cons data rest ih =>
    rw [List.flatten_cons] at h hs
    rw [List.length_append] at h
    have hstart : start ⟨place.toUInt32, data⟩ = place :=
      UInt32.toNat_ofNat_of_lt' (Nat.lt_of_le_of_lt (Nat.le_add_right ..) h)
    rintro i (_ | ⟨_, hi⟩)
    · rw [hstart]
      exact hs.left
    · exact ih (by omega) hs.right i hi

theorem aligned_row (h : place + records.flatten.length < 0x100000000) (hplace : place % 4 = 0)
    (hsize : ∀ data ∈ records, data.length % 4 = 0) :
    ∀ i ∈ row place records, i.offset.toNat % 4 = 0 := by
  induction records generalizing place with
  | nil => simp [row]
  | cons data rest ih =>
    rw [List.flatten_cons, List.length_append] at h
    have hdata := hsize data (List.mem_cons_self ..)
    rintro i (_ | ⟨_, hi⟩)
    · have hstart : place.toUInt32.toNat = place :=
        UInt32.toNat_ofNat_of_lt' (Nat.lt_of_le_of_lt (Nat.le_add_right ..) h)
      rw [hstart]
      exact hplace
    · exact ih (by omega) (by omega)
        (fun other ho => hsize other (List.mem_cons_of_mem _ ho)) i hi

end Item

/-! ## 2. Tables one after the other -/

namespace Table

/-- **Tables of records of given sizes follow each other** between two places.  A table without
records is nowhere, and has the offset zero. -/
inductive Chain : Nat → List (Table × Nat) → Nat → Prop
  | nil (place : Nat) : Chain place [] place
  | empty {t : Table} {size start stop : Nat} {rest : List (Table × Nat)} (hc : t.count = 0)
    (ho : t.offset = 0) (h : Chain start rest stop) : Chain start ((t, size) :: rest) stop
  | full {t : Table} {size start stop : Nat} {rest : List (Table × Nat)} (hc : t.count ≠ 0)
    (ho : t.offset.toNat = start) (h : Chain (start + t.count.toNat * size) rest stop) :
    Chain start ((t, size) :: rest) stop

namespace Chain

variable {start stop : Nat} {tables : List (Table × Nat)}

theorem le (h : Chain start tables stop) : start ≤ stop := by
  induction h with
  | nil => exact Nat.le_refl _
  | empty _ _ _ ih => exact ih
  | full _ _ _ ih => omega

/-- No table ends after the last one. -/
theorem end_le (h : Chain start tables stop) :
    ∀ x ∈ tables, x.1.offset.toNat + x.1.count.toNat * x.2 ≤ stop := by
  induction h with
  | nil => simp
  | @empty t size start stop rest hc ho h ih =>
    rw [List.forall_mem_cons]
    refine ⟨?_, ih⟩
    have hzero : (0 : UInt32).toNat = 0 := rfl
    rw [hc, ho, hzero, Nat.zero_mul]
    exact Nat.zero_le _
  | @full t size start stop rest hc ho h ih =>
    rw [List.forall_mem_cons, ho]
    exact ⟨h.le, ih⟩

theorem offset_eq_zero_iff (h : Chain start tables stop) (hstart : 0 < start) :
    ∀ x ∈ tables, x.1.offset = 0 ↔ x.1.count = 0 := by
  induction h with
  | nil => simp
  | empty hc ho h ih =>
    rw [List.forall_mem_cons]
    exact ⟨⟨fun _ => hc, fun _ => ho⟩, ih hstart⟩
  | full hc ho h ih =>
    rw [List.forall_mem_cons]
    refine ⟨⟨fun hz => ?_, fun hz => (hc hz).elim⟩, ih (by omega)⟩
    have hzero : (0 : UInt32).toNat = 0 := rfl
    rw [hz, hzero] at ho
    omega

/-- Tables of aligned records from an aligned place on are aligned, and so is where they end. -/
theorem aligned (h : Chain start tables stop) (hstart : start % 4 = 0)
    (hsize : ∀ x ∈ tables, x.2 % 4 = 0) :
    (∀ x ∈ tables, x.1.offset.toNat % 4 = 0) ∧ stop % 4 = 0 := by
  induction h with
  | nil => exact ⟨by simp, hstart⟩
  | empty hc ho h ih =>
    obtain ⟨hrest, hstop⟩ := ih hstart fun x hx => hsize x (List.mem_cons_of_mem _ hx)
    refine ⟨List.forall_mem_cons.mpr ⟨?_, hrest⟩, hstop⟩
    rw [ho]
    rfl
  | @full t size start stop rest hc ho h ih =>
    have hfirst : size % 4 = 0 := hsize (t, size) (List.mem_cons_self ..)
    have hnext : (start + t.count.toNat * size) % 4 = 0 := by
      rw [Nat.add_mod, Nat.mul_mod, hstart, hfirst, Nat.mul_zero]
    obtain ⟨hrest, hstop⟩ := ih hnext fun x hx => hsize x (List.mem_cons_of_mem _ hx)
    exact ⟨List.forall_mem_cons.mpr ⟨by rw [ho, hstart], hrest⟩, hstop⟩

end Chain

/-- A table that has been placed is the first of a chain. -/
theorem chain_of_place {t : Table} {next stop : UInt32} {count recordSize last : Nat}
    {rest : List (Table × Nat)} (h : place next count recordSize = .ok (t, stop))
    (hrest : Chain stop.toNat rest last) : Chain next.toNat ((t, recordSize) :: rest) last := by
  obtain ⟨hcount, hstop, hzero, hoffset⟩ := place_eq_ok h
  by_cases hc : count = 0
  · refine .empty ?_ (hzero hc) ?_
    · rw [← UInt32.toNat_inj, hcount, hc]
      rfl
    · rwa [hstop, hc, Nat.zero_mul, Nat.add_zero] at hrest
  · refine .full ?_ (by rw [hoffset hc]) ?_
    · rintro hz
      rw [hz] at hcount
      exact hc hcount.symm
    · rwa [hcount, ← hstop]

/-- The items are the records of a table, one after the other from its offset on. -/
structure RowsOf {α : Type} (t : Table) (size : Nat) (write : α → Part) (all : List α)
    (items : List Item) : Prop where
  count : t.count.toNat = items.length
  sized : ∀ i ∈ items, i.bytes.length = size
  row : items = Item.row t.offset.toNat (items.map Item.bytes)
  written : List.Forall₂ (fun a i => write a = .ok i.bytes) all items

/-- Records that stand where a table says are items. -/
theorem Records.rowsOf {α : Type} {t : Table} {data : List UInt8} {write : α → Part}
    {all : List α} (h : t.Records data write all) {size stop : Nat}
    (hsize : ∀ a, Part.Sized (write a) size) (hstop : t.offset.toNat + t.count.toNat * size ≤ stop)
    (hsmall : stop < 0x100000000) :
    ∃ items, t.RowsOf size write all items ∧ ∀ i ∈ items, Stands data i.start i.bytes := by
  obtain ⟨records, hrecords, hs⟩ := h.stand
  have hlength := length_records hrecords hsize
  rw [← h.count] at hlength
  have hmap := Item.map_bytes_row t.offset.toNat records
  have hwritten : List.Forall₂ (fun a (i : Item) => write a = .ok i.bytes) all
      (Item.row t.offset.toNat records) := by
    rw [← hmap, List.forall₂_map_right_iff] at hrecords
    exact hrecords
  refine ⟨_, ⟨?_, ?_, by rw [hmap], hwritten⟩, Item.stands_row (by omega) hs⟩
  · rw [h.count, hwritten.length_eq]
  · intro i hi
    obtain ⟨a, -, ha⟩ := exists_of_mem_left hwritten.flip i hi
    exact hsize a _ ha

theorem RowsOf.length_flatten {α : Type} {t : Table} {size : Nat} {write : α → Part} {all : List α}
    {items : List Item} (h : t.RowsOf size write all items) :
    (items.map Item.bytes).flatten.length = t.count.toNat * size := by
  rw [h.count]
  have hsized := h.sized
  clear h
  induction items with
  | nil => rw [List.map_nil, List.flatten_nil, List.length_nil, List.length_nil, Nat.zero_mul]
  | cons i rest ih =>
    rw [List.map_cons, List.flatten_cons, List.length_append, hsized i (List.mem_cons_self ..),
      ih fun j hj => hsized j (List.mem_cons_of_mem _ hj), List.length_cons, Nat.succ_mul,
      Nat.add_comm]

/-- **The records of tables that follow each other** follow each other. -/
theorem Chain.between {α : Type} {t : Table} {size start stop : Nat} {write : α → Part}
    {all : List α} {items : List Item} {rest : List (Table × Nat)}
    (h : Chain start ((t, size) :: rest) stop) (hsmall : stop < 0x100000000)
    (hrows : t.RowsOf size write all items) :
    ∃ next, Chain next rest stop ∧ Item.Between start next items := by
  have hlength := hrows.length_flatten
  cases h with
  | empty hc ho h =>
    refine ⟨start, h, ?_⟩
    have hnil : items = [] := by
      rw [← List.length_eq_zero_iff, ← hrows.count, hc]
      rfl
    rw [hnil]
    exact .nil (Nat.le_refl _)
  | full hc ho h =>
    refine ⟨_, h, ?_⟩
    have hle := h.le
    rw [← hlength, ← ho, hrows.row, Item.map_bytes_row]
    exact Item.between_row (by rw [ho, hlength]; omega)

/-- The records of a table are items of a kind whose alignment they have. -/
theorem RowsOf.sound {α : Type} {t : Table} {size stop : Nat} {write : α → Part} {all : List α}
    {items : List Item} (h : t.RowsOf size write all items) {kind : ItemKind}
    (hkind : kind.alignment = 4) (hsize : size % 4 = 0) (hpos : 0 < size)
    (hoffset : t.offset.toNat % 4 = 0) (hstop : t.offset.toNat + t.count.toNat * size ≤ stop)
    (hsmall : stop < 0x100000000) : kind.Sound items := by
  have hlength := h.length_flatten
  have hend : t.offset.toNat + (items.map Item.bytes).flatten.length < 0x100000000 := by omega
  have haligned : ∀ data ∈ items.map Item.bytes, data.length % 4 = 0 := by
    intro data hdata
    obtain ⟨i, hi, rfl⟩ := List.mem_map.mp hdata
    rw [h.sized i hi, hsize]
  intro i hi
  have hsized := h.sized i hi
  rw [hkind]
  refine ⟨List.ne_nil_of_length_pos (by omega), Item.aligned_row hend hoffset haligned i ?_⟩
  rw [← h.row]
  exact hi

end Table

/-! ## 3. The id tables -/

/-- The records of the id tables, kind by kind. -/
def Contents.ofTables (strings types protos fields methods classes : List Item) : Contents
  | .stringId => strings
  | .typeId => types
  | .protoId => protos
  | .fieldId => fields
  | .methodId => methods
  | .classDef => classes
  | _ => []

namespace IdTables

variable {t : IdTables} {c : Catalog}

/-- The tables with the sizes of their records, in the order of the file. -/
def sized (t : IdTables) : List (Table × Nat) :=
  [(t.strings, 4), (t.types, 4), (t.protos, 12), (t.fields, 8), (t.methods, 8),
    (t.classes, ClassDef.recordSize)]

theorem sized_aligned (t : IdTables) : ∀ x ∈ t.sized, x.2 % 4 = 0 := by
  simp [sized, ClassDef.recordSize]

/-- **The tables of a catalog** follow each other from the end of the header on. -/
theorem chain_of_catalog (h : ofCatalog c = .ok t) :
    Table.Chain Header.size t.sized t.stop.toNat := by
  obtain ⟨⟨strings, stop₁⟩, h₁, h⟩ := bind_eq_ok.mp h
  obtain ⟨⟨types, stop₂⟩, h₂, h⟩ := bind_eq_ok.mp h
  obtain ⟨⟨protos, stop₃⟩, h₃, h⟩ := bind_eq_ok.mp h
  obtain ⟨⟨fields, stop₄⟩, h₄, h⟩ := bind_eq_ok.mp h
  obtain ⟨⟨methods, stop₅⟩, h₅, h⟩ := bind_eq_ok.mp h
  obtain ⟨⟨classes, stop₆⟩, h₆, h⟩ := bind_eq_ok.mp h
  obtain rfl := pure_eq_ok.mp h
  exact Table.chain_of_place h₁ (Table.chain_of_place h₂ (Table.chain_of_place h₃
    (Table.chain_of_place h₄ (Table.chain_of_place h₅ (Table.chain_of_place h₆ (.nil _))))))

/-- The items of the kinds of the id tables are the records of the tables. -/
structure RowsOf (t : IdTables) (placed : Catalog.Placed) (k : Contents) : Prop where
  strings : t.strings.RowsOf 4 (fun offset => .ok (LittleEndian.encode offset)) placed.strings
    (k .stringId)
  types : t.types.RowsOf 4 placed.catalog.stringWord placed.catalog.types.items (k .typeId)
  protos : t.protos.RowsOf 12 (fun p => Part.joined (placed.catalog.protoParts p))
    placed.catalog.protos.items (k .protoId)
  fields : t.fields.RowsOf 8 (fun f => Part.joined (placed.catalog.fieldParts f))
    placed.catalog.fields.items (k .fieldId)
  methods : t.methods.RowsOf 8 (fun m => Part.joined (placed.catalog.methodParts m))
    placed.catalog.methods.items (k .methodId)
  classes : t.classes.RowsOf ClassDef.recordSize (fun (d, annotations, classData) =>
    placed.catalog.classPart d annotations classData)
      (placed.catalog.classes.zip (placed.directories.zip placed.classData)) (k .classDef)

theorem rows_of_hold {data : List UInt8} {placed : Catalog.Placed} (h : t.Hold data placed)
    (hchain : Table.Chain Header.size t.sized t.stop.toNat) :
    ∃ k : Contents, t.RowsOf placed k ∧
      Item.Between Header.size t.stop.toNat (ItemKind.idOrder.flatMap k) ∧
      ∀ kind ∈ ItemKind.idOrder, kind.Sound (k kind) ∧
        ∀ i ∈ k kind, Stands data i.start i.bytes := by
  have hsmall : t.stop.toNat < 0x100000000 := t.stop.toNat_lt
  have hend := hchain.end_le
  obtain ⟨haligned, -⟩ := hchain.aligned rfl t.sized_aligned
  simp only [sized, List.forall_mem_cons] at hend haligned
  obtain ⟨e₁, e₂, e₃, e₄, e₅, e₆, -⟩ := hend
  obtain ⟨a₁, a₂, a₃, a₄, a₅, a₆, -⟩ := haligned
  obtain ⟨strings, r₁, s₁⟩ := h.strings.rowsOf
    (fun _ _ hr => Except.ok.inj hr ▸ LittleEndian.length_encode _) e₁ hsmall
  obtain ⟨types, r₂, s₂⟩ := h.types.rowsOf Catalog.sized_stringWord e₂ hsmall
  obtain ⟨protos, r₃, s₃⟩ := h.protos.rowsOf Catalog.sized_protoParts e₃ hsmall
  obtain ⟨fields, r₄, s₄⟩ := h.fields.rowsOf Catalog.sized_fieldParts e₄ hsmall
  obtain ⟨methods, r₅, s₅⟩ := h.methods.rowsOf Catalog.sized_methodParts e₅ hsmall
  obtain ⟨classes, r₆, s₆⟩ := h.classes.rowsOf (fun _ => Catalog.sized_classPart _ _ _) e₆ hsmall
  obtain ⟨_, c₁, b₁⟩ := hchain.between hsmall r₁
  obtain ⟨_, c₂, b₂⟩ := c₁.between hsmall r₂
  obtain ⟨_, c₃, b₃⟩ := c₂.between hsmall r₃
  obtain ⟨_, c₄, b₄⟩ := c₃.between hsmall r₄
  obtain ⟨_, c₅, b₅⟩ := c₄.between hsmall r₅
  obtain ⟨_, c₆, b₆⟩ := c₅.between hsmall r₆
  cases c₆
  refine ⟨.ofTables strings types protos fields methods classes, ⟨r₁, r₂, r₃, r₄, r₅, r₆⟩, ?_, ?_⟩
  · have hlast := b₆.append (.nil (Nat.le_refl _))
    exact b₁.append (b₂.append (b₃.append (b₄.append (b₅.append hlast))))
  · simp only [ItemKind.idOrder, List.forall_mem_cons]
    refine ⟨⟨r₁.sound rfl rfl (by decide) a₁ e₁ hsmall, s₁⟩,
      ⟨r₂.sound rfl rfl (by decide) a₂ e₂ hsmall, s₂⟩,
      ⟨r₃.sound rfl rfl (by decide) a₃ e₃ hsmall, s₃⟩,
      ⟨r₄.sound rfl rfl (by decide) a₄ e₄ hsmall, s₄⟩,
      ⟨r₅.sound rfl rfl (by decide) a₅ e₅ hsmall, s₅⟩,
      ⟨r₆.sound rfl rfl (by decide) a₆ e₆ hsmall, s₆⟩, by simp⟩

end IdTables

/-! ## 4. The items of a container -/

/-- **What the items of a container are**, given its tables and where the items of its data section
have been placed.  Each stands where it is said to be, and they follow each other, kind by kind. -/
structure Container.ContentsOf (options : Options) (tables : IdTables) (placed : Catalog.Placed)
    (bytes : List UInt8) (k : Contents) : Prop where
  stand : ∀ kind, ∀ i ∈ k kind, Stands bytes i.start i.bytes
  between : Item.Between 0 bytes.length (ItemKind.fileOrder.flatMap k)
  sound : ∀ kind : ItemKind, kind.Sound (k kind)
  others : ∀ kind, kind ∉ ItemKind.fileOrder → k kind = []
  inside : ∀ kind ∈ ItemKind.dataOrder, ∀ i ∈ k kind, tables.stop.toNat ≤ i.start
  header : k .header = [⟨0, bytes.take Header.size⟩]
  ids : tables.RowsOf placed k
  data : Catalog.SectionHas options tables placed k

/-- Items of the header, of the tables and of the data section together. -/
def Contents.whole (header : Item) (ids data : Contents) : Contents
  | .header => [header]
  | .stringId => ids .stringId
  | .typeId => ids .typeId
  | .protoId => ids .protoId
  | .fieldId => ids .fieldId
  | .methodId => ids .methodId
  | .classDef => ids .classDef
  | kind => data kind

theorem Contents.whole_cases {header : Item} {ids data : Contents}
    (P : ItemKind → List Item → Prop) (hheader : P .header [header])
    (hids : ∀ kind ∈ ItemKind.idOrder, P kind (ids kind))
    (hdata : ∀ kind, P kind (data kind)) : ∀ kind, P kind (whole header ids data kind) := by
  intro kind
  cases kind <;> first | exact hheader | exact hids _ (by decide) | exact hdata _

namespace Image

variable {options : Container.Options} {classes : List ClassDef} {i : Image} {c : Catalog}
  {tables : IdTables} {placed : Catalog.Placed} {s : Stream}
  (sign : List UInt8 → Vector UInt8 20) (sum : List UInt8 → UInt32)

theorem Laid.founded (hl : Image.Laid options classes i c tables placed s) :
    Stream.Founded { base := tables.stop } := by
  have hchain := IdTables.chain_of_catalog hl.places
  have hle := hchain.le
  have hsize : Header.size = 0x70 := rfl
  refine ⟨(hchain.aligned rfl tables.sized_aligned).2, ?_⟩
  show 0 < tables.stop.toNat
  omega

theorem Laid.length_bytes (hl : Image.Laid options classes i c tables placed s) :
    (i.bytes sign sum).length = tables.stop.toNat + s.data.size := by
  have hheader := Header.length_encode (sealedHeader sign sum i.header (i.ids ++ i.data))
  have hstop := hl.stop
  rw [bytes, List.length_append, List.length_append, hheader, hl.data, Array.length_toList]
  omega

/-- **The items of a container** that has been laid out. -/
theorem contents_of_laid (hl : Image.Laid options classes i c tables placed s) :
    ∃ k : Contents, Container.ContentsOf options tables placed (i.bytes sign sum) k := by
  have hw := Container.written_of_laid sign sum hl
  obtain ⟨ids, hrows, hidsBetween, hids⟩ :=
    IdTables.rows_of_hold hw.hold (IdTables.chain_of_catalog hl.places)
  obtain ⟨_, hfills, data, rfl, hsection, hothers⟩ :=
    Catalog.lays_writeSection _ _ _ hl.founded hl.laid
  have hlength := hl.length_bytes sign sum
  have hheader := Header.length_encode (sealedHeader sign sum i.header (i.ids ++ i.data))
  have hfront : (i.bytes sign sum).take Header.size =
      (sealedHeader sign sum i.header (i.ids ++ i.data)).encode :=
    List.take_left' hheader
  have hdata : ∀ kind, kind.Sound (data kind) ∧
      ∀ x ∈ data kind, Stands (i.bytes sign sum) x.start x.bytes := by
    intro kind
    by_cases hkind : kind ∈ ItemKind.dataOrder
    · refine ⟨hsection.sound kind hkind, fun x hx => ?_⟩
      have hmem : x ∈ ItemKind.dataOrder.flatMap data := List.mem_flatMap.mpr ⟨kind, hkind, hx⟩
      exact (hfills.has x hmem).stands hw.data
    · rw [hothers kind hkind]
      exact ⟨by simp [ItemKind.Sound], by simp⟩
  have hheaderStand : Stands (i.bytes sign sum) 0 ((i.bytes sign sum).take Header.size) := by
    rw [hfront]
    exact .start _ _
  have hheaderLength : ((i.bytes sign sum).take Header.size).length = Header.size := by
    rw [hfront, hheader]
  refine ⟨.whole ⟨0, (i.bytes sign sum).take Header.size⟩ ids data, ?_⟩
  exact {
    stand := Contents.whole_cases
      (fun _ items => ∀ x ∈ items, Stands (i.bytes sign sum) x.start x.bytes)
      (List.forall_mem_singleton.mpr hheaderStand) (fun kind hkind => (hids kind hkind).2)
      fun kind => (hdata kind).2
    between := by
      have hfirst : Item.Between 0 Header.size [⟨0, (i.bytes sign sum).take Header.size⟩] := by
        refine .singleton (Nat.zero_le _) ?_
        show 0 + ((i.bytes sign sum).take Header.size).length ≤ Header.size
        omega
      have hlast := hfills.between
      have hstart : Stream.stop { base := tables.stop } = tables.stop.toNat := rfl
      have hstop : s.stop = (i.bytes sign sum).length := by
        rw [Stream.stop, hlength, hw.base]
      rw [hstart, hstop] at hlast
      have hkinds : ∀ k : Contents, ItemKind.fileOrder.flatMap k = k .header ++
          (ItemKind.idOrder.flatMap k ++ ItemKind.dataOrder.flatMap k) := by
        intro k
        rw [← List.flatMap_append]
        rfl
      rw [hkinds]
      exact hfirst.append (hidsBetween.append hlast)
    sound := by
      refine Contents.whole_cases ItemKind.Sound (List.forall_mem_singleton.mpr ⟨?_, rfl⟩)
        (fun kind hkind => (hids kind hkind).1) fun kind => (hdata kind).1
      exact List.ne_nil_of_length_pos (by rw [hheaderLength]; decide)
    others := by
      refine Contents.whole_cases (fun kind items => kind ∉ ItemKind.fileOrder → items = [])
        (fun hno => (hno (by decide)).elim) (fun kind hkind hno => (hno ?_).elim)
        fun kind hno => hothers kind fun hkind => hno ?_
      · exact List.mem_cons_of_mem _ (List.mem_append_left _ hkind)
      · exact List.mem_cons_of_mem _ (List.mem_append_right _ hkind)
    inside := by
      have hapart : ∀ kind ∈ ItemKind.idOrder, kind ∉ ItemKind.dataOrder := by decide
      refine Contents.whole_cases (fun kind items => kind ∈ ItemKind.dataOrder →
          ∀ x ∈ items, tables.stop.toNat ≤ x.start) (fun hin => absurd hin (by decide))
        (fun kind hkind hin => absurd hin (hapart kind hkind)) fun kind hkind x hx => ?_
      exact (hfills.between.within x (List.mem_flatMap.mpr ⟨kind, hkind, hx⟩)).1
    header := rfl
    ids := ⟨hrows.strings, hrows.types, hrows.protos, hrows.fields, hrows.methods, hrows.classes⟩
    data := ⟨hsection.strings, hsection.stringData, hsection.typeLists, hsection.encodedArrays,
      hsection.annotations, hsection.annotationSets, hsection.setLists, hsection.directories,
      hsection.code, hsection.classData, hsection.map⟩ }

end Image

/-! ## 5. The check of the records -/

/-- **The check never fails**: records that have been made fill their tables. -/
theorem Image.checkIds_of_joined {options : Container.Options} {c : Catalog} {tables : IdTables}
    {placed : Catalog.Placed} {s : Stream} {ids : List UInt8}
    (ht : IdTables.ofCatalog c = .ok tables)
    (hs : c.writeSection options tables { base := tables.stop } = .ok placed s)
    (hj : Part.joined (placed.catalog.recordParts placed.strings placed.directories
      placed.classData) = .ok ids) : checkIds tables ids = .ok () := by
  have hids : Stands (List.replicate Header.size 0 ++ ids) Header.size (ids ++ []) :=
    ⟨_, [], by rw [List.append_nil, List.append_nil], List.length_replicate ..⟩
  obtain ⟨-, hstop⟩ := IdTables.hold_of_joined ht (Catalog.layers_of_ok hs) hj hids
  rw [checkIds, if_pos (beq_iff_eq.mpr hstop)]

/-! ## 6. The layout -/

/-- What a container is written from, one after the other. -/
inductive Region where
  | header
  | ids
  | data
  deriving DecidableEq, Repr, Inhabited

namespace Image

section Regions

variable (sign : List UInt8 → Vector UInt8 20) (sum : List UInt8 → UInt32)

/-- Where a region starts. -/
def start (i : Image) : Region → Nat
  | .header => 0
  | .ids => Header.size
  | .data => i.header.dataOff.toNat

/-- The bytes of a region. -/
def part (i : Image) : Region → List UInt8
  | .header => (sealedHeader sign sum i.header (i.ids ++ i.data)).encode
  | .ids => i.ids
  | .data => i.data

/-- The byte at a place is written by a region. -/
def Covers (i : Image) (r : Region) (place : Nat) : Prop :=
  i.start r ≤ place ∧ place < i.start r + (i.part sign sum r).length

/-- Digests leave the rest of a header as it is. -/
theorem sealedHeader_eq (h : Header) (tail : List UInt8) :
    ∃ checksum signature, sealedHeader sign sum h tail = { h with checksum, signature } :=
  ⟨_, _, rfl⟩

variable {i : Image} {options : Container.Options} {classes : List ClassDef} {c : Catalog}
  {tables : IdTables} {placed : Catalog.Placed} {s : Stream}

theorem length_part_header (i : Image) : (i.part sign sum .header).length = Header.size :=
  Header.length_encode _

theorem bytes_eq_parts (i : Image) :
    i.bytes sign sum = i.part sign sum .header ++ (i.part sign sum .ids ++ i.part sign sum .data) :=
  rfl

/-- **Each byte** is written by one region. -/
theorem existsUnique_covers (h : i.header.dataOff.toNat = Header.size + i.ids.length) (place : Nat)
    (hplace : place < (i.bytes sign sum).length) : ∃! r, i.Covers sign sum r place := by
  have hheader := i.length_part_header sign sum
  have hids : (i.part sign sum .ids).length = i.ids.length := rfl
  have hdata : i.start .data = Header.size + i.ids.length := h
  have hstart : i.start .header = 0 ∧ i.start .ids = Header.size := ⟨rfl, rfl⟩
  rw [bytes_eq_parts, List.length_append, List.length_append, hheader, hids] at hplace
  have hunique : ∀ r r', i.Covers sign sum r place → i.Covers sign sum r' place → r = r' := by
    intro r r' hr hr'
    simp only [Covers] at hr hr'
    cases r <;> cases r' <;> first | rfl | omega
  have hsome : ∃ r, i.Covers sign sum r place := by
    simp only [Covers]
    by_cases hfirst : place < Header.size
    · exact ⟨.header, by omega, by omega⟩
    by_cases hsecond : place < Header.size + i.ids.length
    · exact ⟨.ids, by omega, by omega⟩
    · exact ⟨.data, by omega, by omega⟩
  obtain ⟨r, hr⟩ := hsome
  exact ⟨r, hr, fun r' hr' => hunique r' r hr' hr⟩

theorem stands_part (h : i.header.dataOff.toNat = Header.size + i.ids.length) :
    ∀ r, Stands (i.bytes sign sum) (i.start r) (i.part sign sum r) := by
  have hheader := i.length_part_header sign sum
  have hrest : Stands (i.bytes sign sum) Header.size
      (i.part sign sum .ids ++ i.part sign sum .data) :=
    ⟨_, [], by rw [bytes_eq_parts, List.append_nil], hheader⟩
  intro r
  cases r with
  | header => exact .start _ _
  | ids => exact hrest.left
  | data =>
    have hstart : i.start .data = Header.size + (i.part sign sum .ids).length := h
    rw [hstart]
    exact hrest.right

theorem Laid.dataOff_eq (hl : Image.Laid options classes i c tables placed s) :
    i.header.dataOff = tables.stop := by
  obtain ⟨dataSize, fileSize, hheader, -⟩ := hl.header
  rw [hheader]
  rfl

theorem Laid.fileSize_eq (hl : Image.Laid options classes i c tables placed s) :
    i.header.fileSize.toNat = (i.bytes sign sum).length := by
  have hwhole : i.header.fileSize.toNat = Header.size + (i.ids.length + i.data.length) := hl.size
  have hstop := hl.stop
  rw [hwhole, hl.length_bytes sign sum, hl.data, Array.length_toList]
  omega

end Regions

end Image

namespace Container

/-- The kinds whose items are at multiples of four in the data section. -/
def wordAligned : List ItemKind :=
  [.typeList, .annotationSet, .annotationSetRefList, .annotationsDirectory, .codeItem, .mapList]

/-- **A container with everything in its place.**  The sizes in the header are right, the tables
follow each other up to the data section, items that have to be aligned are, and the three regions
divide the bytes among them. -/
structure Arranged (sign : List UInt8 → Vector UInt8 20) (sum : List UInt8 → UInt32) (i : Image)
    (bytes : List UInt8) (header : Header) (k : Contents) : Prop where
  fileSize : header.fileSize.toNat = bytes.length
  dataOff : header.dataOff.toNat ≤ header.fileSize.toNat
  dataSize : header.dataSize.toNat = header.fileSize.toNat - header.dataOff.toNat
  tables : Table.Chain Header.size (IdTables.ofHeader header).sized header.dataOff.toNat
  absent : ∀ x ∈ (IdTables.ofHeader header).sized, x.1.offset = 0 ↔ x.1.count = 0
  aligned : ∀ kind ∈ wordAligned, ∀ x ∈ k kind, x.offset.toNat % 4 = 0 ∧
    header.dataOff.toNat ≤ x.start ∧ x.stop ≤ header.fileSize.toNat
  map : ∃ data, k .mapList = [⟨header.mapOff, data⟩]
  region : ∀ place < bytes.length, ∃! r, i.Covers sign sum r place
  stand : ∀ r, Stands bytes (i.start r) (i.part sign sum r)
  written : ∀ o : Output, o.size = bytes.length →
    i.assembleWith sign sum o = .ok { o with data := bytes }

section Digests

variable {sign : List UInt8 → Vector UInt8 20} {sum : List UInt8 → UInt32}

theorem arranged_of_laid {options : Options} {classes : List ClassDef} {i : Image} {c : Catalog}
    {tables : IdTables} {placed : Catalog.Placed} {s : Stream} {k : Contents}
    (hl : Image.Laid options classes i c tables placed s)
    (hk : ContentsOf options tables placed (i.bytes sign sum) k) :
    Arranged sign sum i (i.bytes sign sum)
      (Image.sealedHeader sign sum i.header (i.ids ++ i.data)) k := by
  have hlength := hl.length_bytes sign sum
  have hchain := IdTables.chain_of_catalog hl.places
  have hfileSize := hl.fileSize_eq sign sum
  have hdataOff := hl.dataOff_eq
  obtain ⟨dataSize, fileSize, hheader, hsize⟩ := hl.header
  have hdataSize : i.header.dataSize.toNat = s.data.size := by
    rw [hheader]
    exact hsize
  have hmapOff : i.header.mapOff = placed.map := by
    rw [hheader]
    rfl
  have htables : IdTables.ofHeader i.header = tables := by
    rw [hheader]
    rfl
  have hends : i.header.dataOff.toNat = Header.size + i.ids.length := by
    rw [hdataOff, hl.stop]
  obtain ⟨checksum, signature, hsealed⟩ :=
    Image.sealedHeader_eq sign sum i.header (i.ids ++ i.data)
  rw [hsealed]
  exact {
    fileSize := hfileSize
    dataOff := by
      show i.header.dataOff.toNat ≤ i.header.fileSize.toNat
      rw [hfileSize, hdataOff]
      omega
    dataSize := by
      show i.header.dataSize.toNat = i.header.fileSize.toNat - i.header.dataOff.toNat
      rw [hfileSize, hdataOff, hdataSize]
      omega
    tables := by
      show Table.Chain Header.size (IdTables.ofHeader i.header).sized i.header.dataOff.toNat
      rw [htables, hdataOff]
      exact hchain
    absent := by
      show ∀ x ∈ (IdTables.ofHeader i.header).sized, x.1.offset = 0 ↔ x.1.count = 0
      rw [htables]
      exact hchain.offset_eq_zero_iff (by decide)
    aligned := by
      intro kind hkind x hx
      have hkinds : ∀ kind ∈ wordAligned, kind ∈ ItemKind.dataOrder ∧
          kind ∈ ItemKind.fileOrder ∧ kind.alignment = 4 := by decide
      obtain ⟨hdata, hfile, hfour⟩ := hkinds kind hkind
      obtain ⟨-, haligned⟩ := hk.sound kind x hx
      obtain ⟨-, hstop⟩ := hk.between.within x (List.mem_flatMap.mpr ⟨kind, hfile, hx⟩)
      rw [hfour] at haligned
      show _ ∧ i.header.dataOff.toNat ≤ x.start ∧ x.stop ≤ i.header.fileSize.toNat
      rw [hfileSize, hdataOff]
      exact ⟨haligned, hk.inside kind hdata x hx, hstop⟩
    map := by
      obtain ⟨⟨offset, data⟩, _, _, hmap, hoffset, -⟩ := hk.data.map
      exact ⟨data, by rw [hmap, hmapOff, ← hoffset]⟩
    region := Image.existsUnique_covers sign sum hends
    stand := Image.stands_part sign sum hends
    written := by
      intro o ho
      refine Image.assembleWith_eq sign sum (ho.trans ?_) hl.size hends
      rw [Image.size, hfileSize] }

/-- What is known of a container that has been written, and of the items in it. -/
theorem arranged_of_write {options : Options} {classes : List ClassDef} {bytes : List UInt8}
    (h : writeWith sign sum options classes = .ok bytes) : ∃ i header c placed k,
      Image.ofClasses options classes = .ok i ∧ Catalog.discover options classes = .ok c ∧
      (∃ o, placed.catalog = c.withOffsets o) ∧ Header.read bytes = .ok header ∧
      ContentsOf options (.ofHeader header) placed bytes k ∧
      Arranged sign sum i bytes header k := by
  obtain ⟨i, c, tables, placed, s, hi, hl, rfl⟩ := image_of_write h
  obtain ⟨header, hread, ht⟩ := (written_of_laid sign sum hl).header
  obtain ⟨k, hk⟩ := Image.contents_of_laid sign sum hl
  obtain ⟨o, ho, -⟩ := (Catalog.layers_of_ok hl.laid).shared
  have hsealed := Except.ok.inj ((hl.read_header sign sum).symm.trans hread)
  refine ⟨i, header, c, placed, k, hi, hl.discovered, ⟨o, ho⟩, hread, ?_, ?_⟩
  · rw [ht]
    exact hk
  · rw [← hsealed]
    exact arranged_of_laid hl hk

end Digests

/-- **Layout.**  A container that is written, whatever the digests are, begins with a header that
can be read, and everything is in its place by what that header says: the items of the container
follow each other, and it is arranged.  Records that could be made for a catalog fill the tables, so
the check of them does not fail. -/
theorem parts_in_place :
    (∀ (sign : List UInt8 → Vector UInt8 20) (sum : List UInt8 → UInt32) (options : Options)
      (classes : List ClassDef) (bytes : List UInt8),
      writeWith sign sum options classes = .ok bytes → ∃ i header c placed k,
        Image.ofClasses options classes = .ok i ∧ Catalog.discover options classes = .ok c ∧
        (∃ o, placed.catalog = c.withOffsets o) ∧ Header.read bytes = .ok header ∧
        ContentsOf options (.ofHeader header) placed bytes k ∧
        Arranged sign sum i bytes header k) ∧
    ∀ (options : Options) (c : Catalog) (tables : IdTables) (placed : Catalog.Placed) (s : Stream)
      (ids : List UInt8), IdTables.ofCatalog c = .ok tables →
      c.writeSection options tables { base := tables.stop } = .ok placed s →
      Part.joined (placed.catalog.recordParts placed.strings placed.directories
        placed.classData) = .ok ids → Image.checkIds tables ids = .ok () := by
  refine ⟨fun sign sum options classes bytes h => arranged_of_write h, ?_⟩
  intro options c tables placed s ids ht hs hj
  exact Image.checkIds_of_joined ht hs hj

theorem parts_in_place_listenerClass :
    (∃ bytes, write {} [listenerClass] = .ok bytes ∧ ∃ i header c placed k,
      Image.ofClasses {} [listenerClass] = .ok i ∧
      Catalog.discover {} [listenerClass] = .ok c ∧
      (∃ o, placed.catalog = c.withOffsets o) ∧ Header.read bytes = .ok header ∧
      ContentsOf {} (.ofHeader header) placed bytes k ∧
      Arranged Sha1.digest Adler32.checksum i bytes header k) ∧
    ∃ c tables placed s ids, Catalog.discover {} [listenerClass] = .ok c ∧
      IdTables.ofCatalog c = .ok tables ∧
      c.writeSection {} tables { base := tables.stop } = .ok placed s ∧
      Part.joined (placed.catalog.recordParts placed.strings placed.directories
        placed.classData) = .ok ids ∧ Image.checkIds tables ids = .ok () := by
  obtain ⟨bytes, h⟩ := exists_of_isOk isOk_write_listenerClass
  obtain ⟨i, c, tables, placed, s, -, hl, -⟩ := image_of_write h
  exact ⟨⟨bytes, h, parts_in_place.1 _ _ {} [listenerClass] bytes h⟩, c, tables, placed, s, i.ids,
    hl.discovered, hl.places, hl.laid, hl.ids,
    parts_in_place.2 {} c tables placed s i.ids hl.places hl.laid hl.ids⟩

end Container

end Dalvik
