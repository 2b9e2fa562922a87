/-
# Class definitions read back

A reader that follows the header to the class definitions finds one for each class, in the order of
writing: what the class is called, its flags, its superclass, interfaces and source file, and the
members in its class data, each with its flags and, if it is a method with code, with the offset of
just that code.

The offsets of code go through a list that is searched by class, name and prototype.  No two methods
of a container agree in these, for a container has one class of a descriptor, and the members of a
class differ.  So a method finds its own code there, and one without code finds none.

* `readClasses` is the reader, and `ClassIs` says what it is to find;
* `CodePlaces` says where the code is, and `Written.code_of_method` that a method finds its own;
* `Written.readClassData_eq` is the statement for the class data of one class, and
  `classes_read_back` the one for a container.
-/
import Dalvik.Proofs.Container.CodeReading
import Dalvik.Proofs.Container.IdReading
import Dalvik.Proofs.Container.MemberGroups

namespace Dalvik

namespace Container

/-! ## 1. The reader -/

/-- The definition of a class as a record. -/
structure ClassRecord where
  descriptor : UInt32
  flags : UInt32
  superclass : UInt32
  interfaces : UInt32
  sourceFile : UInt32
  annotations : UInt32
  classData : UInt32
  staticValues : UInt32
  deriving DecidableEq, Repr, Inhabited

/-- Reads the definition of a class. -/
def ClassRecord.read : Reader ClassRecord := do
  let descriptor ← Cursor.field UInt32
  let flags ← Cursor.field UInt32
  let superclass ← Cursor.field UInt32
  let interfaces ← Cursor.field UInt32
  let sourceFile ← Cursor.field UInt32
  let annotations ← Cursor.field UInt32
  let classData ← Cursor.field UInt32
  let staticValues ← Cursor.field UInt32
  return { descriptor, flags, superclass, interfaces, sourceFile, annotations, classData,
           staticValues }

/-- A class as a container has it. -/
structure ClassFound where
  descriptor : String
  flags : UInt32
  superclass? : Option String
  /-- The interfaces, if there is a list of them. -/
  interfaces? : Option (List String)
  sourceFile? : Option String
  /-- The class data, if there is any. -/
  data? : Option ClassData
  deriving DecidableEq, Repr, Inhabited

/-- The entry that an index leads to, unless it is the index that stands for none. -/
def entryAt? {α : Type} (entries : List α) (index : UInt32) : Except Error (Option α) :=
  if index == Header.noIndex then .ok none else (entryAt entries index.toNat).map some

/-- Reads the class data at an offset, zero for none. -/
def readClassData (data : List UInt8) (offset : UInt32) : Except Error (Option ClassData) :=
  if offset == 0 then .ok none else (Reader.answerAt data offset.toNat ClassData.read).map some

/-- Follows the indices and offsets of a class definition. -/
def ClassRecord.follow (data : List UInt8) (strings : List StringFound) (types : List String)
    (r : ClassRecord) : Except Error ClassFound := do
  let descriptor ← entryAt types r.descriptor.toNat
  let superclass? ← entryAt? types r.superclass
  let interfaces? ← readTypeList data types r.interfaces
  let sourceFile? ← entryAt? (strings.map (·.value)) r.sourceFile
  let data? ← readClassData data r.classData
  return { descriptor, flags := r.flags, superclass?, interfaces?, sourceFile?, data? }

/-- **Reads the class definitions** of a container. -/
def readClasses (data : List UInt8) : Except Error (List ClassFound) := do
  let header ← Header.read data
  let t := IdTables.ofHeader header
  let strings ← Pools.readStrings data t
  let types ← Pools.readTypes data t strings
  let records ← readTable data t.classes ClassRecord.read
  records.mapM (ClassRecord.follow data strings types)

/-! ## 2. What is to be found -/

/-- The code item of a method is at the offset: at some time the data section was so far that the
item had just been written, and the writing answered the offset. -/
def CodeAt (options : Options) (c : Catalog) (bytes : List UInt8) (base : UInt32) (m : Method)
    (b : Body) (offset : UInt32) : Prop :=
  ∃ s t : Stream, s.base = base ∧ m.writeCode c.indexer options b s = .ok offset t ∧
    Stands bytes base.toNat t.data.toList

/-- **Where the code is**: the methods that have code, in the order of writing, each with the offset
of its code item.  The offsets increase, so no two methods share one. -/
structure CodePlaces (options : Options) (c : Catalog) (bytes : List UInt8) (base : UInt32)
    (code : ClassDef.CodeOffsets) : Prop where
  items : List.Forall₂ (fun x place => place.1 = x.1 ∧
    CodeAt options c bytes base x.2.1 x.2.2 place.2) c.methodsWithCode code
  increasing : code.Pairwise fun x y => x.2 < y.2

/-- The offset is that of the code item that has been written for the method. -/
def CodeOf (options : Options) (c : Catalog) (bytes : List UInt8) (base : UInt32)
    (places : ClassDef.CodeOffsets) (r : MethodRef) (m : Method) (b : Body) (offset : UInt32) :
    Prop :=
  (r, offset) ∈ places ∧ CodeAt options c bytes base m b offset

/-- A field of a class, found by its place in the pool. -/
def FieldIs (c : Catalog) (d : ClassDef) (f : Field) (x : MemberFound) : Prop :=
  c.fields.get? x.index = some (d.fieldRef f) ∧ x.numbers = [f.flags.bits]

/-- A method of a class, found by its place in the pool, with the offset of its own code, which is
zero if it has none. -/
def MethodIs (c : Catalog) (isCode : MethodRef → Method → Body → UInt32 → Prop) (d : ClassDef)
    (m : Method) (x : MemberFound) : Prop :=
  c.methods.get? x.index = some (d.methodRef m) ∧
    ∃ offset, x.numbers = [m.flags.bits, offset] ∧ (offset = 0 ↔ m.body? = none) ∧
      ∀ b, m.body? = some b → isCode (d.methodRef m) m b offset

/-- **The class data found** has the members of a class in their groups. -/
structure ClassDataIs (c : Catalog) (isCode : MethodRef → Method → Body → UInt32 → Prop)
    (d : ClassDef) (data : ClassData) : Prop where
  staticFields : MembersAre (FieldIs c d) (d.fields.filter (·.isStatic)) data.staticFields
  instanceFields : MembersAre (FieldIs c d) (d.fields.filter (!·.isStatic)) data.instanceFields
  directMethods : MembersAre (MethodIs c isCode d) (d.methods.filter (·.isDirect))
    data.directMethods
  virtualMethods : MembersAre (MethodIs c isCode d) (d.methods.filter (!·.isDirect))
    data.virtualMethods

/-- **The class found** is the given one. -/
structure ClassIs (c : Catalog) (isCode : MethodRef → Method → Body → UInt32 → Prop)
    (d : ClassDef) (x : ClassFound) : Prop where
  descriptor : x.descriptor = d.descriptor
  flags : x.flags = d.flags.bits
  superclass : x.superclass? = d.superclass?
  interfaces : x.interfaces? = listed d.interfaces
  sourceFile : x.sourceFile? = d.sourceFile?
  noData : x.data? = none ↔ d.fields = [] ∧ d.methods = []
  data : ∀ data, x.data? = some data → ClassDataIs c isCode d data

/-! ## 3. Code -/

end Container

/-- A code item begins after what was in the stream, and is not empty. -/
theorem Method.lt_of_writeCode {ix : Indexer} {options : Container.Options} {m : Method} {b : Body}
    {s t : Stream} {offset : UInt32} (h : m.writeCode ix options b s = .ok offset t) :
    s.base.toNat + s.data.size ≤ offset.toNat ∧ offset.toNat < t.base.toNat + t.data.size := by
  obtain ⟨counts, units, tries, bytes, -, -, -, hbytes, hoffset, hdata⟩ :=
    Method.writeCode_eq_ok h
  obtain ⟨triesSize, unitsSize, tail, -, -, -, rfl⟩ := joined_codeParts hbytes
  have hbase := (Method.appends_writeCode s offset t h).base
  have hlength := congrArg List.length hdata
  simp only [List.length_append, Array.length_toList, List.length_replicate,
    length_frontBytes] at hlength
  rw [hbase]
  omega

/-- A class that is kept is the only one of its descriptor. -/
theorem ClassDef.Kept.unique {classes : List ClassDef} {d e : ClassDef} (hd : d.Kept classes)
    (he : e.Kept classes) (h : d.descriptor = e.descriptor) : d = e := by
  unfold Kept at hd he
  rw [h, he] at hd
  exact (Option.some.inj hd).symm

/-- **Methods differ** in class, name or prototype. -/
theorem ClassDef.method_of_methodRef {classes : List ClassDef} {d e : ClassDef} {m n : Method}
    (hdiff : ∀ d : ClassDef, d.Kept classes → d.MembersDiffer) (hd : d.Kept classes)
    (he : e.Kept classes) (hm : m ∈ d.methods) (hn : n ∈ e.methods)
    (h : d.methodRef m = e.methodRef n) : m = n := by
  have howner : d.descriptor = e.descriptor := congrArg MethodRef.owner h
  obtain rfl := hd.unique he howner
  obtain ⟨-, hnodup⟩ := membersDiffer_iff.mp (hdiff d hd)
  exact List.inj_on_of_nodup_map hnodup hm hn h

namespace Catalog

variable {options : Container.Options} {c : Catalog}

/-- Code that has been written one item after the other: each item has been written on the way to
the end, and is after those that were written before. -/
theorem ran_writeCodeOf {all : List (MethodRef × Method × Body)}
    {before code : ClassDef.CodeOffsets} {s t : Stream}
    (h : c.writeCodeOf options before all s = .ok code t) :
    ∃ written : ClassDef.CodeOffsets, code = written.reverse ++ before ∧
      List.Forall₂ (fun x place => place.1 = x.1 ∧
        Stream.Ran (x.2.1.writeCode c.indexer options x.2.2) place.2 t) all written ∧
      (∀ place ∈ written, s.base.toNat + s.data.size ≤ place.2.toNat) ∧
      written.Pairwise fun x y => x.2 < y.2 := by
  induction all generalizing before s with
  | nil =>
    obtain ⟨rfl, -⟩ := statePure_eq_ok.mp h
    exact ⟨[], rfl, .nil, by simp, .nil⟩
  | cons x rest ih =>
    obtain ⟨r, m, b⟩ := x
    obtain ⟨offset, u, ho, hrest⟩ := stateBind_eq_ok.mp h
    have hcode := Stream.inside_eq_ok.mp ho
    have hext := appends_writeCodeOf _ _ _ _ _ hrest
    have hbase := (Method.appends_writeCode _ _ _ hcode).base
    obtain ⟨hfirst, hlater⟩ := Method.lt_of_writeCode hcode
    obtain ⟨written, rfl, hitems, hle, hlt⟩ := ih hrest
    have hran : Stream.Ran (m.writeCode c.indexer options b) offset t :=
      ⟨s, u, hcode, (hext.base.trans hbase).symm, hext⟩
    refine ⟨(r, offset) :: written, ?_, .cons ⟨rfl, hran⟩ hitems, ?_, .cons ?_ hlt⟩
    · rw [List.reverse_cons, List.append_assoc]
      rfl
    · rintro place (_ | ⟨_, hplace⟩)
      · exact hfirst
      · have hp := hle place hplace
        omega
    · intro place hplace
      have hp := hle place hplace
      have hoffset : offset.toNat < place.2.toNat := by omega
      exact UInt32.lt_iff_toNat_lt.mpr hoffset

end Catalog

namespace Container

variable {options : Options} {c : Catalog} {bytes : List UInt8}

theorem codeAt_of_ran {m : Method} {b : Body} {offset : UInt32} {t : Stream}
    (h : Stream.Ran (m.writeCode c.indexer options b) offset t)
    (hs : Stands bytes t.base.toNat t.data.toList) :
    CodeAt options c bytes t.base m b offset := by
  obtain ⟨s, u, hu, hb, -, more, hm⟩ := h
  rw [hm] at hs
  exact ⟨s, u, hb, hu, hs.left⟩

theorem CodeAt.le {base : UInt32} {m : Method} {b : Body} {offset : UInt32}
    (h : CodeAt options c bytes base m b offset) : base.toNat ≤ offset.toNat := by
  obtain ⟨s, t, rfl, hcode, -⟩ := h
  exact Nat.le_trans (Nat.le_add_right ..) (Method.lt_of_writeCode hcode).1

/-- **The offsets of code** are where the code is. -/
theorem codePlaces_of_ran {code : ClassDef.CodeOffsets} {t : Stream}
    (h : Stream.Ran (c.writeCode options) code t) (hs : Stands bytes t.base.toNat t.data.toList) :
    ∃ places, code = places.reverse ∧ CodePlaces options c bytes t.base places := by
  obtain ⟨s, u, hu, hb, he⟩ := h
  obtain ⟨places, rfl, hitems, -, hlt⟩ := Catalog.ran_writeCodeOf hu
  refine ⟨places, List.append_nil _, ⟨hitems.imp ?_, hlt⟩⟩
  rintro x place ⟨hr, v, w, hw, hv, hvw⟩
  exact ⟨hr, codeAt_of_ran ⟨v, w, hw, hv.trans he.base.symm, hvw.trans he⟩ hs⟩

namespace Written

variable {classes : List ClassDef} {tables : IdTables} {placed : Catalog.Placed} {s : Stream}

section

variable (w : Written options classes bytes c tables placed s)

include w

theorem kept (d : ClassDef) : d ∈ c.classes ↔ d.Kept classes :=
  (Catalog.serves_of_discover w.discovered).kept d

section

variable {places : ClassDef.CodeOffsets} (hp : CodePlaces options c bytes s.base places)
  {d : ClassDef} (hd : d.Kept classes) {m : Method} (hm : m ∈ d.methods)

include hp hd hm

/-- A method with code is among the methods that have a place. -/
theorem place_of_body {b : Body} (hb : m.body? = some b) :
    ∃ offset, (d.methodRef m, offset) ∈ places := by
  have hx : (d.methodRef m, m, b) ∈ c.methodsWithCode :=
    Catalog.mem_methodsWithCode.mpr ⟨d, (w.kept d).mpr hd, m, hm, b, hb, rfl⟩
  obtain ⟨⟨r, offset⟩, hplace, hr, -⟩ := exists_of_mem_left hp.items _ hx
  obtain rfl : r = d.methodRef m := hr
  exact ⟨offset, hplace⟩

/-- The place of a method is that of its own code, for no other method has its reference. -/
theorem code_of_place {offset : UInt32} (h : (d.methodRef m, offset) ∈ places) :
    ∃ b, m.body? = some b ∧ CodeAt options c bytes s.base m b offset := by
  obtain ⟨x, hx, hr, hat⟩ := exists_of_mem_left hp.items.flip _ h
  obtain ⟨e, he, n, hn, b, hb, rfl⟩ := Catalog.mem_methodsWithCode.mp hx
  obtain rfl := ClassDef.method_of_methodRef (Catalog.discover_eq_ok w.discovered).1 hd
    ((w.kept e).mp he) hm hn hr
  exact ⟨b, hb, hat⟩

/-- **A method finds its own code**, and finds none if it has none. -/
theorem code_of_method {offset : UInt32}
    (ho : (places.reverse.lookup (d.methodRef m)).getD 0 = offset) :
    (offset = 0 ↔ m.body? = none) ∧ ∀ b, m.body? = some b →
      CodeOf options c bytes s.base places (d.methodRef m) m b offset := by
  cases hl : places.reverse.lookup (d.methodRef m) with
  | none =>
    have hnone : m.body? = none := by
      refine Option.eq_none_iff_forall_ne_some.mpr fun b hb => ?_
      obtain ⟨found, hplace⟩ := w.place_of_body hp hd hm hb
      have hne := List.lookup_eq_none_iff.mp hl _ (List.mem_reverse.mpr hplace)
      exact bne_iff_ne.mp hne rfl
    rw [hl] at ho
    rw [hnone]
    exact ⟨⟨fun _ => rfl, fun _ => ho.symm⟩, nofun⟩
  | some found =>
    rw [hl] at ho
    obtain rfl : found = offset := ho
    obtain ⟨front, back, hsplit, -⟩ := List.lookup_eq_some_iff.mp hl
    have hplace : (d.methodRef m, found) ∈ places := by
      rw [← List.mem_reverse, hsplit]
      exact List.mem_append_right _ (List.mem_cons_self ..)
    obtain ⟨b, hb, hat⟩ := w.code_of_place hp hd hm hplace
    rw [hb]
    refine ⟨⟨fun hz => (w.ne_zero_of_le hat.le hz).elim, nofun⟩, ?_⟩
    rintro _ ⟨⟩
    exact ⟨hplace, hat⟩

end

/-! ## 4. Class data -/

theorem field_of_index {f : FieldRef} {index : UInt32} (h : c.indexer (.field f) = .ok index) :
    c.fields.items[index.toNat]? = some f :=
  Catalog.item_of_index (Catalog.inStep_of_discover w.discovered).fields (fun _ => rfl) h

theorem method_of_index {m : MethodRef} {index : UInt32} (h : c.indexer (.method m) = .ok index) :
    c.methods.items[index.toNat]? = some m :=
  Catalog.item_of_index (Catalog.inStep_of_discover w.discovered).methods (fun _ => rfl) h

theorem fields_of_entries {d : ClassDef} {entries : List (Bool × MemberEntry)}
    (h : d.fieldEntries c.indexer = .ok entries) :
    List.Forall₂ (fun f m => m.1 = f.isStatic ∧ FieldIs c d f m.2.found)
      d.fields entries := by
  refine (mapM_eq_ok.mp h).imp ?_
  intro f m hm
  obtain ⟨index, hi, hm⟩ := bind_eq_ok.mp hm
  obtain rfl := pure_eq_ok.mp hm
  exact ⟨rfl, w.field_of_index hi, rfl⟩

section

variable {places : ClassDef.CodeOffsets}
  (hp : CodePlaces options c bytes s.base places) {d : ClassDef} (hd : d.Kept classes)

include hp hd

theorem methods_of_entries {entries : List (Bool × MemberEntry)}
    (h : d.methodEntries c.indexer places.reverse = .ok entries) :
    List.Forall₂ (fun m e => e.1 = m.isDirect ∧ MethodIs c
      (CodeOf options c bytes s.base places) d m e.2.found) d.methods entries := by
  have hentries := (List.forall₂_and_left d.methods entries).mpr ⟨fun _ hm => hm, mapM_eq_ok.mp h⟩
  refine hentries.imp ?_
  rintro m e ⟨hm, he⟩
  obtain ⟨index, hi, he⟩ := bind_eq_ok.mp he
  obtain rfl := pure_eq_ok.mp he
  exact ⟨rfl, w.method_of_index hi, _, rfl, w.code_of_method hp hd hm rfl⟩

/-- The groups of a class are read as its members. -/
theorem takes_memberGroups {groups : List (List MemberEntry)} {data : List UInt8}
    (hg : d.memberGroups c.indexer places.reverse = .ok groups)
    (h : Part.joined (groups.map (fun g => Part.count g.length) ++
      groups.map fun g => .ok (MemberEntry.encodeGroup g)) = .ok data) :
    ∃ found, ClassDataIs c (CodeOf options c bytes s.base places) d
      found ∧ ∀ pos, Takes ClassData.read pos data found := by
  obtain ⟨fields, hfields, hrest⟩ := bind_eq_ok.mp hg
  obtain ⟨methods, hmethods, hlast⟩ := bind_eq_ok.mp hrest
  obtain rfl := pure_eq_ok.mp hlast
  have hf := w.fields_of_entries hfields
  have hm := w.methods_of_entries hp hd hmethods
  obtain ⟨hnf, hnm⟩ := ClassDef.membersDiffer_iff.mp ((Catalog.discover_eq_ok w.discovered).1 d hd)
  have hfieldsSorted : ∀ first, MemberEntry.Sorted 1 (ClassDef.group first fields) :=
    ClassDef.sorted_group hf fun f x hx => congrArg List.length hx.2
  have hmethodsSorted : ∀ first, MemberEntry.Sorted 2 (ClassDef.group first methods) :=
    ClassDef.sorted_group hm fun m x ⟨_, o, ho, _⟩ => congrArg List.length ho
  have hfieldsAre := ClassDef.members_of_group hf (fun f x hx => hx.1) hnf
  have hmethodsAre := ClassDef.members_of_group hm (fun m x hx => hx.1) hnm
  refine ⟨_, ?_, MemberEntry.takes_classData (hfieldsSorted true) (hfieldsSorted false)
    (hmethodsSorted true) (hmethodsSorted false) h⟩
  exact {
    staticFields := by simpa only [beq_true] using hfieldsAre true
    instanceFields := by simpa only [beq_false] using hfieldsAre false
    directMethods := by simpa only [beq_true] using hmethodsAre true
    virtualMethods := by simpa only [beq_false] using hmethodsAre false }

/-- **The class data** at the offset that has been answered for a class. -/
theorem readClassData_eq {offset : UInt32}
    (h : Stream.Ran (d.writeData c.indexer places.reverse) offset s) :
    ∃ data? : Option ClassData, readClassData bytes offset = .ok data? ∧
      (data? = none ↔ d.fields = [] ∧ d.methods = []) ∧
      ∀ data, data? = some data → ClassDataIs c
        (CodeOf options c bytes s.base places) d data := by
  have hmembers : d.hasMembers = false ↔ d.fields = [] ∧ d.methods = [] := by
    simp [ClassDef.hasMembers]
  obtain ⟨u, v, hv, hb, he⟩ := h
  unfold ClassDef.writeData at hv
  split at hv
  case isTrue hno =>
    obtain ⟨rfl, -⟩ := statePure_eq_ok.mp hv
    have hnone := hmembers.mp (Bool.not_eq_true' _ ▸ hno)
    exact ⟨none, rfl, ⟨fun _ => hnone, fun _ => rfl⟩, nofun⟩
  case isFalse hsome =>
    obtain ⟨groups, _, hlift, hitem⟩ := stateBind_eq_ok.mp hv
    obtain ⟨hgroups, rfl⟩ := stateLift_eq_ok.mp hlift
    obtain ⟨data, hdata, hat⟩ := Stream.Ran.item ⟨_, _, hitem, hb, he⟩
    obtain ⟨found, hfound, htakes⟩ := w.takes_memberGroups hp hd hgroups hdata
    have hread := answerAt_of_takes (htakes _) (hat.stands w.data)
    have hne : ¬ (offset == 0) = true := by
      rw [beq_iff_eq]
      exact w.offset_ne_zero hat
    refine ⟨some found, ?_, ⟨nofun, fun hnone => ?_⟩, ?_⟩
    · rw [readClassData, if_neg hne, hread]
      rfl
    · rw [hmembers.mpr hnone] at hsome
      exact (hsome rfl).elim
    · rintro _ ⟨⟩
      exact hfound

end

end

end Written

/-! ## 5. Class definitions -/

/-- The record has the indices of a class and the offsets of its items. -/
structure ClassRecord.Holds (ix : Indexer) (d : ClassDef) (offsets : ClassDef.ItemOffsets)
    (r : ClassRecord) : Prop where
  descriptor : ix (.type d.descriptor) = .ok r.descriptor
  flags : d.flags.bits = r.flags
  superclass : ClassDef.indexOrNone ix (d.superclass?.map .type) = .ok r.superclass
  interfaces : offsets.interfaces = r.interfaces
  sourceFile : ClassDef.indexOrNone ix (d.sourceFile?.map .string) = .ok r.sourceFile
  annotations : offsets.annotations = r.annotations
  classData : offsets.classData = r.classData
  staticValues : offsets.staticValues = r.staticValues

theorem takes_recordParts {ix : Indexer} {d : ClassDef} {offsets : ClassDef.ItemOffsets}
    {record : List UInt8} (h : Part.joined (d.recordParts ix offsets) = .ok record) :
    ∃ r : ClassRecord, r.Holds ix d offsets ∧ ∀ pos, Takes ClassRecord.read pos record r := by
  obtain ⟨values, hvalues, rfl⟩ := Part.joined_words h
  match values, hvalues with
  | _, .cons (b := descriptor) hd (.cons (b := flags) hf (.cons (b := superclass) hs
      (.cons (b := interfaces) hi (.cons (b := sourceFile) ho (.cons (b := annotations) ha
        (.cons (b := classData) hc (.cons (b := staticValues) hv .nil))))))) =>
    refine ⟨⟨descriptor, flags, superclass, interfaces, sourceFile, annotations, classData,
      staticValues⟩, ⟨hd, Except.ok.inj hf, hs, Except.ok.inj hi, ho, Except.ok.inj ha,
      Except.ok.inj hc, Except.ok.inj hv⟩, fun pos => ?_⟩
    simp only [List.flatMap_cons, List.flatMap_nil, List.append_nil]
    exact (Takes.field pos _).bind ((Takes.field _ _).bind ((Takes.field _ _).bind
      ((Takes.field _ _).bind ((Takes.field _ _).bind ((Takes.field _ _).bind
        ((Takes.field _ _).bind (Takes.field _ _).map))))))

/-- The record of a class that has been written. -/
def RecordOf (c : Catalog) (x : ClassDef × UInt32 × UInt32) (r : ClassRecord) : Prop :=
  ∃ interfaces staticValues, c.typeListOffset x.1.interfaces = .ok interfaces ∧
    c.encodedArrayOffset x.1.staticValues = .ok staticValues ∧
    r.Holds c.indexer x.1
      { interfaces, annotations := x.2.1, classData := x.2.2, staticValues }

theorem takes_classPart (x : ClassDef × UInt32 × UInt32) (record : List UInt8)
    (h : c.classPart x.1 x.2.1 x.2.2 = .ok record) :
    ∃ r : ClassRecord, RecordOf c x r ∧ ∀ pos, Takes ClassRecord.read pos record r := by
  obtain ⟨interfaces, staticValues, hlist, harray, hparts⟩ := Catalog.classPart_eq_ok h
  obtain ⟨r, hr, htakes⟩ := takes_recordParts hparts
  exact ⟨r, ⟨interfaces, staticValues, hlist, harray, hr⟩, htakes⟩

/-- An index that leads to an entry is not the one that stands for none. -/
theorem entryAt?_of_indexOrNone {α : Type} {ix : Indexer} {reference : α → Reference}
    {entries : List α} {a? : Option α} {index : UInt32}
    (h : ClassDef.indexOrNone ix (a?.map reference) = .ok index)
    (hi : ∀ a, ix (reference a) = .ok index → entries[index.toNat]? = some a)
    (hl : entries.length < 0x100000000) : entryAt? entries index = .ok a? := by
  cases a? with
  | none =>
    obtain rfl : Header.noIndex = index := Except.ok.inj h
    rfl
  | some a =>
    have ha := hi a h
    obtain ⟨hlt, -⟩ := List.getElem?_eq_some_iff.mp ha
    have hne : ¬ (index == Header.noIndex) = true := by
      rw [beq_iff_eq]
      rintro rfl
      have hnone : Header.noIndex.toNat = 0xFFFFFFFF := rfl
      omega
    rw [entryAt?, if_neg hne, entryAt_eq_ok ha]
    rfl

namespace Written

variable {classes : List ClassDef} {tables : IdTables} {placed : Catalog.Placed} {s : Stream}
  (w : Written options classes bytes c tables placed s)

include w

theorem entry_typeOrNone {d? : Option String} {index : UInt32}
    (h : ClassDef.indexOrNone placed.catalog.indexer (d?.map .type) = .ok index) :
    entryAt? placed.catalog.types.items index = .ok d? :=
  entryAt?_of_indexOrNone h (fun _ => w.type_of_index) w.length_types_lt

theorem entry_stringOrNone {value? : Option String} {index : UInt32}
    (h : ClassDef.indexOrNone placed.catalog.indexer (value?.map .string) = .ok index) :
    entryAt? ((placed.catalog.strings.items.map StringFound.of).map (·.value)) index =
      .ok value? := by
  have hvalues : (placed.catalog.strings.items.map StringFound.of).map (·.value) =
      placed.catalog.strings.items := by
    rw [List.map_map]
    exact List.map_id _
  rw [hvalues]
  exact entryAt?_of_indexOrNone h (fun _ => w.string_of_index) w.length_strings_lt

/-- The class definition that a record leads to. -/
theorem follow_eq {places : ClassDef.CodeOffsets}
    (hp : CodePlaces options c bytes s.base places) {d : ClassDef}
    (hd : d.Kept classes) {annotations classData : UInt32} {r : ClassRecord}
    (hdata : Stream.Ran (d.writeData c.indexer places.reverse) classData s)
    (hr : RecordOf placed.catalog (d, annotations, classData) r) :
    ∃ found, ClassIs c (CodeOf options c bytes s.base places) d found ∧
      r.follow bytes (placed.catalog.strings.items.map .of) placed.catalog.types.items =
        .ok found := by
  obtain ⟨interfaces, staticValues, hlist, -, hr⟩ := hr
  obtain ⟨data?, hread, hnone, hsome⟩ := w.readClassData_eq hp hd hdata
  have hinterfaces := w.readTypeList_eq hlist
  rw [show interfaces = r.interfaces from hr.interfaces] at hinterfaces
  rw [show classData = r.classData from hr.classData] at hread
  refine ⟨⟨d.descriptor, r.flags, d.superclass?, listed d.interfaces, d.sourceFile?, data?⟩, ?_, ?_⟩
  · exact {
      descriptor := rfl, flags := hr.flags.symm, superclass := rfl, interfaces := rfl
      sourceFile := rfl, noData := hnone, data := hsome }
  · refine bind_eq_ok.mpr ⟨_, w.entry_type ⟨_, hr.descriptor, rfl⟩, ?_⟩
    refine bind_eq_ok.mpr ⟨_, w.entry_typeOrNone hr.superclass, bind_eq_ok.mpr ⟨_, hinterfaces, ?_⟩⟩
    refine bind_eq_ok.mpr ⟨_, w.entry_stringOrNone hr.sourceFile, ?_⟩
    exact bind_eq_ok.mpr ⟨_, hread, rfl⟩

/-- The class definitions, with the place of all code. -/
theorem readClasses_eq : ∃ places found, CodePlaces options c bytes s.base places ∧
    readClasses bytes = .ok found ∧
      List.Forall₂ (ClassIs c (CodeOf options c bytes s.base places)) c.classes found := by
  obtain ⟨code, hcode, hdata⟩ := w.layers.classData
  obtain ⟨places, rfl, hp⟩ := codePlaces_of_ran hcode w.data
  obtain ⟨records, hrecords, hholds⟩ := readTable_eq_ok w.hold.classes takes_classPart
  rw [w.classes_eq] at hholds
  have hran := (List.forall₂_and_left c.classes placed.classData).mpr
    ⟨fun d => (w.kept d).mp, hdata.mapM fun _ => .inside _ ClassDef.appends_writeData⟩
  have hle : placed.classData.length ≤ placed.directories.length := by
    rw [w.layers.directories, hran.length_eq]
  rw [← List.map_snd_zip hle, List.forall₂_map_right_iff] at hran
  obtain ⟨found, hfound, hfollow⟩ := exists_forall₂ (forall₂_of_zip hran hholds)
    fun d r ⟨_, ⟨hd, hdata⟩, hr⟩ => w.follow_eq hp hd hdata.inside hr
  obtain ⟨header, hread, ht⟩ := w.header
  refine ⟨places, found, hp, ?_, hfound⟩
  refine bind_eq_ok.mpr ⟨header, hread, ?_⟩
  rw [ht]
  refine bind_eq_ok.mpr ⟨_, w.readStrings_eq, bind_eq_ok.mpr ⟨_, w.readTypes_eq, ?_⟩⟩
  exact bind_eq_ok.mpr ⟨records, hrecords, mapM_eq_ok.mpr hfollow⟩

end Written

/-! ## 6. Classes -/

/-- **Class definitions read back.**  A reader of a container that has been written, whatever the
digests are, finds the class definitions in the order of writing, each with what the class says of
itself, and with all of its members and their code. -/
theorem classes_read_back {sign : List UInt8 → Vector UInt8 20} {sum : List UInt8 → UInt32}
    {options : Options} {classes : List ClassDef} {bytes : List UInt8}
    (h : writeWith sign sum options classes = .ok bytes) :
    ∃ c header places found, Catalog.discover options classes = .ok c ∧
      Header.read bytes = .ok header ∧ CodePlaces options c bytes header.dataOff places ∧
      readClasses bytes = .ok found ∧
      List.Forall₂ (ClassIs c (CodeOf options c bytes header.dataOff places))
        (ClassDef.inOrder classes) found := by
  obtain ⟨c, tables, placed, s, w⟩ := written_of_write h
  obtain ⟨places, found, hp, hread, hfound⟩ := w.readClasses_eq
  obtain ⟨header, hheader, ht⟩ := w.header
  have hbase : s.base = header.dataOff := by
    rw [w.base, ← ht]
    rfl
  rw [hbase] at hp hfound
  rw [Catalog.classes_of_discover w.discovered] at hfound
  exact ⟨c, header, places, found, w.discovered, hheader, hp, hread, hfound⟩

theorem classes_read_back_listenerClass :
    ∃ bytes, Container.write {} [listenerClass] = .ok bytes ∧
      ∃ c header places found, Catalog.discover {} [listenerClass] = .ok c ∧
        Header.read bytes = .ok header ∧ CodePlaces {} c bytes header.dataOff places ∧
        readClasses bytes = .ok found ∧
        List.Forall₂ (ClassIs c (CodeOf {} c bytes header.dataOff places))
          (ClassDef.inOrder [listenerClass]) found := by
  obtain ⟨bytes, h⟩ := exists_of_isOk isOk_write_listenerClass
  exact ⟨bytes, h, classes_read_back h⟩

end Container

end Dalvik
