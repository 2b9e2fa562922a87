/-
# What the data section has

The data section is ten sections of items, one after the other.  For each kind of item it has just
the items that the catalog asks for: one for each string and for each item shared by content, one
for each method with code, one for each class with members, the directories that the classes refer
to, and the map list.

* `SharedItems.LaidAs` says that the items of a table are laid where the table says, and
  `LaidAs.of_offsetOf` that a lookup leads to one of them;
* `Catalog.SectionHas` says what the items of the data section are, and `lays_writeSection` that a
  section that has been written has them in their order.
-/
import Dalvik.Proofs.Container.Directories
import Dalvik.Proofs.Container.Tables

namespace Dalvik

/-! ## 1. Items shared by content -/

namespace SharedItems

variable {α : Type}

/-- The items of a table have been laid one by one, each at the offset that the table has. -/
def LaidAs (t : SharedItems α) (kind : ItemKind) (parts : α → List Part) (items : List Item) :
    Prop :=
  List.Forall₂ (fun e i => e.2 = i.offset ∧ i.Laid kind.alignment (parts e.1)) t.entries items

variable {t : SharedItems α} {kind : ItemKind} {parts : α → List Part} {items : List Item}

theorem LaidAs.sound (h : t.LaidAs kind parts items) : kind.Sound items := by
  intro i hi
  obtain ⟨e, -, -, hlaid⟩ := exists_of_mem_left h.flip i hi
  exact ⟨hlaid.ne_nil, hlaid.aligned⟩

theorem LaidAs.offsets_eq (h : t.LaidAs kind parts items) : t.offsets = items.map Item.offset := by
  rw [offsets, ← List.forall₂_eq_eq_eq, List.forall₂_map_left_iff, List.forall₂_map_right_iff]
  exact h.imp fun _ _ he => he.1

/-- The entry of the map list for a table. -/
theorem LaidAs.entryOf_eq (h : t.LaidAs kind parts items) :
    Catalog.entryOf kind t = (kind, items.length, (items.map Item.offset).headD 0) := by
  rw [Catalog.entryOf, firstOffset, h.offsets_eq, h.length_eq]

/-- An item that is looked up is there, laid for one with the same key. -/
theorem LaidAs.of_offsetOf [Keyed α] (h : t.LaidAs kind parts items) {a : α} {offset : UInt32}
    (ho : t.offsetOf a = .ok offset) :
    ∃ b ∈ t.items, key b = key a ∧ ∃ i ∈ items, i.offset = offset ∧
      i.Laid kind.alignment (parts b) := by
  obtain ⟨b, hb, hkey⟩ := mem_of_offsetOf ho
  obtain ⟨i, hi, hoffset, hlaid⟩ := exists_of_mem_left h _ hb
  exact ⟨b, List.mem_map.mpr ⟨_, hb, rfl⟩, hkey, i, hi, hoffset.symm, hlaid⟩

theorem laidAs_setOffsets
    (h : List.Forall₂ (Item.Laid kind.alignment) (t.items.map parts) items) :
    (t.setOffsets (items.map Item.offset)).LaidAs kind parts items := by
  rw [List.forall₂_map_left_iff] at h
  have hentries : (t.setOffsets (items.map Item.offset)).entries =
      t.items.zip (items.map Item.offset) := rfl
  rw [LaidAs, hentries]
  clear hentries
  generalize t.items = all at h ⊢
  induction h with
  | nil => exact .nil
  | cons hi _ ih => exact .cons ⟨rfl, hi⟩ ih

/-- What is known of a layer that lays the items of a table and sets their offsets. -/
theorem lays_layer (kind : ItemKind) (place : SharedItems α → Catalog)
    (hfilled : ∀ a, Part.Filled (parts a)) : Lays (do return place (t.setOffsets
        (← Stream.items kind.alignment (t.items.map parts))) : StreamWriter Catalog)
      fun c items => c = place (t.setOffsets (items.map Item.offset)) ∧
        (t.setOffsets (items.map Item.offset)).LaidAs kind parts items := by
  have hlists : ∀ list ∈ t.items.map parts, Part.Filled list := by
    intro list hlist
    obtain ⟨a, -, rfl⟩ := List.mem_map.mp hlist
    exact hfilled a
  refine .bind (.items kind.alignment_cases hlists) ?_
  rintro _ items ⟨rfl, hitems⟩
  refine .pure ?_
  rw [List.append_nil]
  exact ⟨rfl, laidAs_setOffsets hitems⟩

end SharedItems

namespace Catalog

variable {c : Catalog}

theorem filled_stringParts (value : String) : Part.Filled (stringParts value) :=
  Part.filled_cons fun _ => Part.count_ne_nil

theorem filled_typeListParts (l : List String) : Part.Filled (c.typeListParts l) :=
  Part.filled_cons fun _ => Part.field_ne_nil

theorem filled_arrayParts (values : List EncodedValue) :
    Part.Filled (EncodedValue.arrayParts c.indexer values) :=
  Part.filled_cons fun _ => Part.count_ne_nil

theorem filled_annotationParts (a : Annotation) : Part.Filled (a.parts c.indexer) := by
  refine Part.filled_cons ?_
  rintro _ ⟨⟩
  exact List.cons_ne_nil _ _

theorem filled_tableParts (words : List (Except Error UInt32)) :
    Part.Filled (tableParts words) :=
  Part.filled_cons fun _ => Part.field_ne_nil

end Catalog

/-! ## 2. Code, class data and the map list -/

/-- The item is the code of a method. -/
def Method.CodeLaid (ix : Indexer) (options : Container.Options) (m : Method) (b : Body)
    (i : Item) : Prop :=
  ∃ counts units tries, m.registerCounts options b = .ok counts ∧ b.encode ix = .ok units ∧
    b.resolveTries = .ok tries ∧
      i.Laid ItemKind.codeItem.alignment (codeParts ix counts units tries)

/-- The parts of the class data with groups of members. -/
def ClassDef.dataParts (groups : List (List MemberEntry)) : List Part :=
  groups.map (fun g => Part.count g.length) ++ groups.map fun g => .ok (MemberEntry.encodeGroup g)

/-- The item is the class data of a class. -/
def ClassDef.DataLaid (ix : Indexer) (code : ClassDef.CodeOffsets) (d : ClassDef) (i : Item) :
    Prop :=
  ∃ groups, d.memberGroups ix code = .ok groups ∧
    i.Laid ItemKind.classData.alignment (ClassDef.dataParts groups)

theorem Method.lays_writeCode {ix : Indexer} {options : Container.Options} {m : Method}
    {b : Body} : Lays (m.writeCode ix options b) fun offset items =>
      ∃ i, items = [i] ∧ i.offset = offset ∧ m.CodeLaid ix options b i := by
  refine .bind_nil (Lays.lift _) fun counts hcounts => ?_
  refine .bind_nil (Lays.lift _) fun units hunits => ?_
  refine .bind_nil (Lays.lift _) fun tries htries => ?_
  have hfilled : Part.Filled (codeParts ix counts units tries) := by
    refine Part.filled_cons ?_
    rintro _ ⟨⟩
    rw [List.append_assoc]
    have hregisters := LittleEndian.encode_ne_nil (by decide) counts.registers
    exact List.append_ne_nil_of_left_ne_nil hregisters _
  refine (Lays.item (.inr rfl) hfilled).mono ?_
  rintro offset _ ⟨i, rfl, rfl, hi⟩
  exact ⟨i, rfl, rfl, counts, units, tries, hcounts, hunits, htries, hi⟩

theorem ClassDef.lays_writeData {ix : Indexer} {code : ClassDef.CodeOffsets} {d : ClassDef} :
    Lays (d.writeData ix code) fun offset items =>
      d.hasMembers = false ∧ offset = 0 ∧ items = [] ∨
        d.hasMembers = true ∧ ∃ i, items = [i] ∧ i.offset = offset ∧ offset ≠ 0 ∧
          d.DataLaid ix code i := by
  refine .ite (fun hno => .pure (.inl ⟨?_, rfl, rfl⟩)) fun hsome => ?_
  · simpa using hno
  · refine .bind_nil (Lays.lift _) fun groups hgroups => ?_
    have hfilled : Part.Filled (ClassDef.dataParts groups) := by
      obtain ⟨fields, -, hrest⟩ := bind_eq_ok.mp hgroups
      obtain ⟨methods, -, hrest⟩ := bind_eq_ok.mp hrest
      obtain rfl := pure_eq_ok.mp hrest
      exact Part.filled_cons fun _ => Part.count_ne_nil
    refine (Lays.item (.inl rfl) hfilled).mono ?_
    rintro offset _ ⟨i, rfl, rfl, hi⟩
    exact .inr ⟨by simpa using hsome, i, rfl, rfl, hi.ne_zero, groups, hgroups, hi⟩

/-- The map list is an item with an entry for itself. -/
theorem MapList.lays_write {m : MapList} : Lays m.write fun offset items =>
    ∃ i listed, items = [i] ∧ i.offset = offset ∧ m.add .mapList 1 offset = .ok listed ∧
      i.Laid ItemKind.mapList.alignment listed.parts := by
  intro s offset t hs h
  obtain ⟨_, s₁, h₁, hrest⟩ := stateBind_eq_ok.mp h
  obtain ⟨_, s₂, h₂, hrest⟩ := stateBind_eq_ok.mp hrest
  obtain ⟨listed, s₃, h₃, hrest⟩ := stateBind_eq_ok.mp hrest
  obtain ⟨_, s₄, h₄, hlast⟩ := stateBind_eq_ok.mp hrest
  obtain ⟨rfl, rfl⟩ := statePure_eq_ok.mp hlast
  obtain ⟨hlisted, rfl⟩ := stateLift_eq_ok.mp h₃
  have hitem : Stream.item 4 listed.parts s = .ok _ s₄ :=
    stateBind_eq_ok.mpr ⟨_, s₁, h₁, stateBind_eq_ok.mpr ⟨_, s₂, h₂,
      stateBind_eq_ok.mpr ⟨_, s₄, h₄, rfl⟩⟩⟩
  have hfilled : Part.Filled listed.parts := Part.filled_cons fun _ => Part.field_ne_nil
  obtain ⟨items, hitems, i, rfl, rfl, hi⟩ := Lays.item (.inr rfl) hfilled s _ _ hs hitem
  exact ⟨_, hitems, i, listed, rfl, rfl, hlisted, hi⟩

namespace Catalog

variable {c : Catalog} {options : Container.Options}

theorem lays_writeCodeOf (all : List (MethodRef × Method × Body))
    (before : ClassDef.CodeOffsets) :
    Lays (c.writeCodeOf options before all) fun code items =>
      List.Forall₂ (fun x i => x.2.1.CodeLaid c.indexer options x.2.2 i) all items ∧
        code.map (·.2) = (items.map Item.offset).reverse ++ before.map (·.2) := by
  induction all generalizing before with
  | nil => exact .pure ⟨.nil, rfl⟩
  | cons x rest ih =>
    obtain ⟨r, m, b⟩ := x
    refine .bind (Lays.inside _ Method.lays_writeCode) ?_
    rintro _ _ ⟨i, rfl, rfl, hi⟩
    refine (ih ((r, i.offset) :: before)).mono ?_
    rintro code items ⟨hitems, hcode⟩
    refine ⟨.cons hi hitems, ?_⟩
    rw [hcode, List.singleton_append, List.map_cons, List.map_cons, List.reverse_cons,
      List.append_assoc, List.singleton_append]

theorem lays_writeClassDataOf {code : ClassDef.CodeOffsets} (all : List ClassDef) :
    Lays (all.mapM fun d => Stream.inside d.descriptor (d.writeData c.indexer code))
      fun offsets items => present offsets = items.map Item.offset ∧
        List.Forall₂ (fun d i => d.DataLaid c.indexer code i) (all.filter (·.hasMembers))
          items := by
  induction all with
  | nil => exact .pure ⟨rfl, .nil⟩
  | cons d rest ih =>
    rw [List.mapM_cons]
    refine .bind (Lays.inside _ ClassDef.lays_writeData) fun offset xs hd => ?_
    refine .bind ih ?_
    rintro offsets ys ⟨hoffsets, hys⟩
    refine .pure ?_
    rw [List.append_nil]
    rcases hd with ⟨hno, rfl, rfl⟩ | ⟨hyes, i, rfl, rfl, hne, hi⟩
    · refine ⟨hoffsets, ?_⟩
      rw [List.filter_cons_of_neg (by simp [hno])]
      exact hys
    · refine ⟨?_, ?_⟩
      · rw [present, List.filter_cons_of_pos (by simpa using hne)]
        exact congrArg (i.offset :: ·) hoffsets
      · rw [List.filter_cons_of_pos hyes]
        exact .cons hi hys

/-- The offset of the code that has been written first stands last. -/
theorem codeEntry_eq {code : ClassDef.CodeOffsets} {items : List Item}
    (h : code.map (·.2) = (items.map Item.offset).reverse) :
    (ItemKind.codeItem, code.length, (code.getLast?.map (·.2)).getD 0) =
      (.codeItem, items.length, (items.map Item.offset).headD 0) := by
  have hlength := congrArg List.length h
  rw [List.length_map, List.length_reverse, List.length_map] at hlength
  rw [hlength, ← List.getLast?_map, h, List.getLast?_reverse, List.headD_eq_head?_getD]

end Catalog

/-! ## 3. The section -/

/-- The entry of the map list for the items of a kind. -/
def Contents.entry (k : Contents) (kind : ItemKind) : ItemKind × Nat × UInt32 :=
  (kind, (k kind).length, ((k kind).map Item.offset).headD 0)

/-- The items of the data section, kind by kind. -/
def Contents.ofSection (strings typeLists encodedArrays annotations annotationSets setLists
    directories code classData map : List Item) : Contents
  | .stringData => strings
  | .typeList => typeLists
  | .encodedArray => encodedArrays
  | .annotationItem => annotations
  | .annotationSet => annotationSets
  | .annotationSetRefList => setLists
  | .annotationsDirectory => directories
  | .codeItem => code
  | .classData => classData
  | .mapList => map
  | _ => []

namespace Catalog

variable {c : Catalog} {options : Container.Options}

/-- **What the items of the data section are**, given the catalog with the offsets of its items. -/
structure SectionHas (options : Container.Options) (tables : IdTables) (placed : Placed)
    (k : Contents) : Prop where
  strings : placed.strings = (k .stringData).map Item.offset
  stringData : List.Forall₂ (Item.Laid ItemKind.stringData.alignment)
    (placed.catalog.strings.items.map stringParts) (k .stringData)
  typeLists : placed.catalog.typeLists.LaidAs .typeList placed.catalog.typeListParts (k .typeList)
  encodedArrays : placed.catalog.encodedArrays.LaidAs .encodedArray
    (EncodedValue.arrayParts placed.catalog.indexer) (k .encodedArray)
  annotations : placed.catalog.annotations.LaidAs .annotationItem
    (fun a => a.parts placed.catalog.indexer) (k .annotationItem)
  annotationSets : placed.catalog.annotationSets.LaidAs .annotationSet placed.catalog.setParts
    (k .annotationSet)
  setLists : placed.catalog.setLists.LaidAs .annotationSetRefList placed.catalog.setListParts
    (k .annotationSetRefList)
  directories : placed.catalog.DirectoriesLaid placed.catalog.classes [] (k .annotationsDirectory)
    ⟨placed.directories, (k .annotationsDirectory).length⟩
  code : List.Forall₂ (fun x i => x.2.1.CodeLaid placed.catalog.indexer options x.2.2 i)
    placed.catalog.methodsWithCode (k .codeItem)
  classData : present placed.classData = (k .classData).map Item.offset ∧
    ∃ code, List.Forall₂ (fun d i => d.DataLaid placed.catalog.indexer code i)
      (placed.catalog.classes.filter (·.hasMembers)) (k .classData)
  map : ∃ i m listed, k .mapList = [i] ∧ i.offset = placed.map ∧
    mapOf (tables.mapEntries ++ ItemKind.dataOrder.dropLast.map k.entry) = .ok m ∧
    m.add .mapList 1 placed.map = .ok listed ∧ i.Laid ItemKind.mapList.alignment listed.parts

theorem SectionHas.sound {tables : IdTables} {placed : Placed} {k : Contents}
    (h : SectionHas options tables placed k) :
    ∀ kind ∈ ItemKind.dataOrder, kind.Sound (k kind) := by
  simp only [ItemKind.dataOrder, List.forall_mem_cons]
  refine ⟨Item.Laid.sound h.stringData, h.typeLists.sound, h.encodedArrays.sound,
    h.annotations.sound, h.annotationSets.sound, h.setLists.sound, ?_, ?_, ?_, ?_, by simp⟩
  · intro i hi
    obtain ⟨_, hlaid⟩ := h.directories.laid i hi
    exact ⟨hlaid.ne_nil, hlaid.aligned⟩
  · intro i hi
    obtain ⟨_, -, _, _, _, -, -, -, hlaid⟩ := exists_of_mem_left h.code.flip i hi
    exact ⟨hlaid.ne_nil, hlaid.aligned⟩
  · intro i hi
    obtain ⟨-, _, hdata⟩ := h.classData
    obtain ⟨_, -, _, -, hlaid⟩ := exists_of_mem_left hdata.flip i hi
    exact ⟨hlaid.ne_nil, hlaid.aligned⟩
  · obtain ⟨i, _, _, hmap, -, -, -, hlaid⟩ := h.map
    rw [hmap]
    exact List.forall_mem_singleton.mpr ⟨hlaid.ne_nil, hlaid.aligned⟩

/-- **The data section** is laid kind by kind, in the order of the kinds. -/
theorem lays_writeSection {tables : IdTables} :
    Lays (c.writeSection options tables) fun placed items => ∃ k : Contents,
      items = ItemKind.dataOrder.flatMap k ∧ SectionHas options tables placed k ∧
        ∀ kind, kind ∉ ItemKind.dataOrder → k kind = [] := by
  have hstrings : ∀ list ∈ c.strings.items.map stringParts, Part.Filled list := by
    intro list hlist
    obtain ⟨value, -, rfl⟩ := List.mem_map.mp hlist
    exact filled_stringParts value
  refine .align_bind (.bind (Lays.items (.inl rfl) hstrings) ?_)
  rintro _ strings ⟨rfl, hstrings⟩
  refine .align_bind (.bind (SharedItems.lays_layer .typeList
    (fun t => { c with typeLists := t }) fun _ => filled_typeListParts _) ?_)
  rintro c₁ typeLists ⟨hc₁, htypeLists⟩
  refine .align_bind (.bind (SharedItems.lays_layer .encodedArray
    (fun t => { c₁ with encodedArrays := t }) fun _ => filled_arrayParts _) ?_)
  rintro c₂ encodedArrays ⟨hc₂, hencodedArrays⟩
  refine .align_bind (.bind (SharedItems.lays_layer .annotationItem
    (fun t => { c₂ with annotations := t }) fun _ => filled_annotationParts _) ?_)
  rintro c₃ annotations ⟨hc₃, hannotations⟩
  refine .align_bind (.bind (SharedItems.lays_layer .annotationSet
    (fun t => { c₃ with annotationSets := t }) fun _ => filled_tableParts _) ?_)
  rintro c₄ annotationSets ⟨hc₄, hannotationSets⟩
  refine .align_bind (.bind (SharedItems.lays_layer .annotationSetRefList
    (fun t => { c₄ with setLists := t }) fun _ => filled_tableParts _) ?_)
  rintro c₅ setLists ⟨hc₅, hsetLists⟩
  have hset : ∀ set offset, c₅.setOffsetOf set = .ok offset → offset ≠ 0 := by
    intro set offset ho
    subst hc₅ hc₄
    obtain ⟨_, -, -, i, -, rfl, hlaid⟩ := hannotationSets.of_offsetOf ho
    exact hlaid.ne_zero
  refine .align_bind (.bind (lays_writeDirectories hset) ?_)
  rintro directories directoryItems ⟨hdirectories, hapart⟩
  refine .align_bind (.bind (lays_writeCodeOf _ _) ?_)
  rintro code codeItems ⟨hcodeItems, hcode⟩
  refine .align_bind (.bind (lays_writeClassDataOf _) ?_)
  rintro classData classDataItems ⟨hpresent, hclassData⟩
  refine .bind_nil (Lays.lift _) fun m hm => ?_
  refine .bind MapList.lays_write ?_
  rintro map _ ⟨i, listed, rfl, rfl, hlisted, hi⟩
  refine .pure ⟨.ofSection strings typeLists encodedArrays annotations annotationSets setLists
    directoryItems codeItems classDataItems [i], rfl, ?_, ?_⟩
  · subst hc₅ hc₄ hc₃ hc₂ hc₁
    refine ⟨rfl, hstrings, htypeLists, hencodedArrays, hannotations, hannotationSets, hsetLists,
      ?_, hcodeItems, ⟨hpresent, code, hclassData⟩, i, m, listed, rfl, rfl, ?_, hlisted, hi⟩
    · obtain ⟨offsets, written⟩ := directories
      obtain rfl : written = directoryItems.length := hdirectories.written
      exact hdirectories
    · refine (congrArg (fun entries => mapOf (tables.mapEntries ++ entries)) ?_).trans hm
      rw [List.map_nil, List.append_nil] at hcode
      have hstringEntry : (ItemKind.stringData, (strings.map Item.offset).length,
          (strings.map Item.offset).headD 0) =
            (.stringData, strings.length, (strings.map Item.offset).headD 0) := by
        rw [List.length_map]
      have hclassDataEntry : (ItemKind.classData, (present classData).length,
          (present classData).headD 0) = (.classData, classDataItems.length,
            (classDataItems.map Item.offset).headD 0) := by
        rw [hpresent, List.length_map]
      rw [← List.forall₂_eq_eq_eq]
      exact .cons hstringEntry.symm (.cons htypeLists.entryOf_eq.symm
        (.cons hencodedArrays.entryOf_eq.symm (.cons hannotations.entryOf_eq.symm
        (.cons hannotationSets.entryOf_eq.symm (.cons hsetLists.entryOf_eq.symm
        (.cons (hdirectories.entry_eq hapart).symm (.cons (codeEntry_eq hcode).symm
        (.cons hclassDataEntry.symm .nil))))))))
  · intro kind hkind
    cases kind <;> first | rfl | exact (hkind (by decide)).elim

end Catalog

end Dalvik
