/-
# Directories of annotations

A directory says which sets a class and its members have.  Each class with annotations has one; but
a class of which no member is annotated shares that of an earlier such class, if they have the same
set.  So a directory is not made for each class, and it is found through the set alone; what matters
is that the bytes say the same for both.

* `Attaches` says what is attached to a class and its members, and `DirectoryOf` that some bytes
  are a directory of a class;
* `attaches_bare` is why classes can share: without annotated members, only the set is left;
* `lays_writeDirectories` says where the directories are, and `DirectoriesLaid.entry_eq` which one
  is the first.
-/
import Dalvik.Container.DataSection
import Dalvik.Proofs.Container.Items

namespace Dalvik

/-! ## 1. What is attached -/

/-- The class, a member or a parameter is annotated. -/
def ClassDef.Annotated (d : ClassDef) : Prop :=
  d.annotations ≠ [] ∨ d.hasMemberAnnotations = true

/-- Items that pass a test, and what has been found for them, where the others have nothing. -/
theorem forall₂_filter_filterMap {α β γ : Type} {R : α → β → Prop} {S : α → γ → Prop}
    {p : α → Bool} {f : β → Option γ} {as : List α} {bs : List β} (h : List.Forall₂ R as bs)
    (hyes : ∀ a b, R a b → p a = true → ∃ c, f b = some c ∧ S a c)
    (hno : ∀ a b, R a b → p a = false → f b = none) :
    List.Forall₂ S (as.filter p) (bs.filterMap f) := by
  induction h with
  | nil => exact .nil
  | @cons a b _ _ hr _ ih =>
    cases hp : p a with
    | true =>
      obtain ⟨c, hc, hs⟩ := hyes a b hr hp
      rw [List.filter_cons_of_pos hp, List.filterMap_cons_some hc]
      exact .cons hs ih
    | false =>
      have hnot : ¬ p a = true := by rw [hp]; exact Bool.false_ne_true
      rw [List.filter_cons_of_neg hnot, List.filterMap_cons_none (hno a b hr hp)]
      exact ih

namespace Catalog

variable {c : Catalog} {d : ClassDef}

/-- The set of a class, zero if the class is not annotated. -/
def ClassSet (c : Catalog) (d : ClassDef) (offset : UInt32) : Prop :=
  (d.annotations = [] → offset = 0) ∧
    (d.annotations ≠ [] → c.setOffsetOf d.annotations = .ok offset)

/-- **What a directory says** of a class: its set, the annotated fields, the annotated methods and
the methods with annotated parameters, each with its index and with the offset of what is attached
to it. -/
structure Attaches (c : Catalog) (d : ClassDef) (classSet : UInt32)
    (fields own parameters : List Attached) : Prop where
  classSet : c.ClassSet d classSet
  fields : List.Forall₂ (fun f x => c.indexer (.field (d.fieldRef f)) = .ok x.1 ∧
    c.setOffsetOf f.annotations = .ok x.2) (d.fields.filter fun f => !f.annotations.isEmpty) fields
  own : List.Forall₂ (fun m x => c.indexer (.method (d.methodRef m)) = .ok x.1 ∧
    c.setOffsetOf m.annotations = .ok x.2) (d.methods.filter fun m => !m.annotations.isEmpty) own
  parameters : List.Forall₂ (fun m x => c.indexer (.method (d.methodRef m)) = .ok x.1 ∧
    c.setLists.offsetOf (m.parameterAnnotations.map AnnotationSet.sorted) = .ok x.2)
      (d.methods.filter (·.hasParameterAnnotations)) parameters

/-- The bytes of a directory with three groups of members. -/
def directoryPart (classSet : UInt32) (groups : List (List Attached)) : Part := do
  let counts ← groups.mapM fun g => Bytes.narrow32 g.length
  let members := (groups.map sortAttached).flatten.flatMap fun (index, offset) => [index, offset]
  return (classSet :: counts ++ members).flatMap LittleEndian.encode

/-- The bytes are a directory of the class. -/
def DirectoryOf (c : Catalog) (d : ClassDef) (data : List UInt8) : Prop :=
  ∃ classSet fields own parameters, c.Attaches d classSet fields own parameters ∧
    directoryPart classSet [fields, own, parameters] = .ok data

theorem directoryPart_ne_nil {classSet : UInt32} {groups : List (List Attached)}
    {data : List UInt8} (h : directoryPart classSet groups = .ok data) : data ≠ [] := by
  obtain ⟨counts, -, h⟩ := bind_eq_ok.mp h
  obtain rfl := pure_eq_ok.mp h
  rw [List.cons_append, List.flatMap_cons]
  exact List.append_ne_nil_of_left_ne_nil (LittleEndian.encode_ne_nil (by decide) classSet) _

theorem attachedMethod_eq_ok {m : Method} {found : Option Attached × Option Attached}
    (h : c.attachedMethod d m = .ok found) :
    ∃ index own parameters, c.indexer (.method (d.methodRef m)) = .ok index ∧
      c.ownSet? m = .ok own ∧ c.parameterSets? m = .ok parameters ∧
      found = (own.map (index, ·), parameters.map (index, ·)) := by
  obtain ⟨index, hindex, h⟩ := bind_eq_ok.mp h
  obtain ⟨own, hown, h⟩ := bind_eq_ok.mp h
  obtain ⟨parameters, hparameters, h⟩ := bind_eq_ok.mp h
  exact ⟨index, own, parameters, hindex, hown, hparameters, (pure_eq_ok.mp h).symm⟩

/-- **A directory that has been made** for a class is one of the class. -/
theorem attaches_of_directory {classSet : UInt32} {data : List UInt8}
    (hs : c.ClassSet d classSet) (h : c.directory classSet d = .ok data) :
    ∃ fields own parameters, c.Attaches d classSet fields own parameters ∧
      directoryPart classSet [fields, own, parameters] = .ok data := by
  obtain ⟨fields, hfields, h⟩ := bind_eq_ok.mp h
  obtain ⟨methods, hmethods, h⟩ := bind_eq_ok.mp h
  have hpart : directoryPart classSet [fields, methods.filterMap (·.1),
      methods.filterMap (·.2)] = .ok data := h
  refine ⟨fields, _, _, ?_, hpart⟩
  have hmethods := mapM_eq_ok.mp hmethods
  refine ⟨hs, (mapM_eq_ok.mp hfields).imp ?_, ?_, ?_⟩
  · intro f x hx
    obtain ⟨index, hindex, hx⟩ := bind_eq_ok.mp hx
    obtain ⟨offset, hoffset, hx⟩ := bind_eq_ok.mp hx
    obtain rfl := pure_eq_ok.mp hx
    exact ⟨hindex, hoffset⟩
  · refine forall₂_filter_filterMap hmethods ?_ ?_
    · intro m found hm hp
      obtain ⟨index, own, parameters, hindex, hown, -, rfl⟩ := attachedMethod_eq_ok hm
      rw [Bool.not_eq_true'] at hp
      rw [ownSet?, if_neg (by simp [hp])] at hown
      obtain ⟨offset, hoffset, rfl⟩ := map_eq_ok.mp hown
      exact ⟨(index, offset), rfl, hindex, hoffset⟩
    · intro m found hm hp
      obtain ⟨index, own, parameters, -, hown, -, rfl⟩ := attachedMethod_eq_ok hm
      rw [Bool.not_eq_false'] at hp
      rw [ownSet?, if_pos hp] at hown
      obtain rfl := Except.ok.inj hown
      rfl
  · refine forall₂_filter_filterMap hmethods ?_ ?_
    · intro m found hm hp
      obtain ⟨index, own, parameters, hindex, -, hparameters, rfl⟩ := attachedMethod_eq_ok hm
      rw [parameterSets?, if_pos hp] at hparameters
      obtain ⟨offset, hoffset, rfl⟩ := map_eq_ok.mp hparameters
      exact ⟨(index, offset), rfl, hindex, hoffset⟩
    · intro m found hm hp
      obtain ⟨index, own, parameters, -, -, hparameters, rfl⟩ := attachedMethod_eq_ok hm
      rw [parameterSets?, if_neg (by simp [hp])] at hparameters
      obtain rfl := Except.ok.inj hparameters
      rfl

/-- The bytes of a directory without members. -/
def bareDirectory (classSet : UInt32) : List UInt8 :=
  [classSet, 0, 0, 0].flatMap LittleEndian.encode

theorem directoryPart_bare (classSet : UInt32) :
    directoryPart classSet [[], [], []] = .ok (bareDirectory classSet) := by
  refine bind_eq_ok.mpr ⟨[0, 0, 0], rfl, pure_eq_ok.mpr ?_⟩
  simp only [sortAttached, List.map_cons, List.map_nil, List.mergeSort_nil, List.flatten_cons,
    List.flatten_nil, List.append_nil, List.flatMap_nil]
  rfl

/-- **Classes without annotated members** attach only their sets. -/
theorem attaches_bare {classSet : UInt32} {fields own parameters : List Attached}
    (hm : d.hasMemberAnnotations = false) : c.Attaches d classSet fields own parameters ↔
      c.ClassSet d classSet ∧ fields = [] ∧ own = [] ∧ parameters = [] := by
  simp only [ClassDef.hasMemberAnnotations, Bool.or_eq_false_iff, List.any_eq_false,
    Bool.not_eq_true] at hm
  obtain ⟨hfields, hmethods⟩ := hm
  have hnoFields : (d.fields.filter fun f => !f.annotations.isEmpty) = [] :=
    List.filter_eq_nil_iff.mpr fun f hf => by simpa using hfields f hf
  have hnoOwn : (d.methods.filter fun m => !m.annotations.isEmpty) = [] :=
    List.filter_eq_nil_iff.mpr fun m hmem => by simpa using (hmethods m hmem).1
  have hnoParameters : d.methods.filter (·.hasParameterAnnotations) = [] :=
    List.filter_eq_nil_iff.mpr fun m hmem => by simpa using (hmethods m hmem).2
  constructor
  · intro h
    have hf := h.fields
    have ho := h.own
    have hp := h.parameters
    rw [hnoFields, List.forall₂_nil_left_iff] at hf
    rw [hnoOwn, List.forall₂_nil_left_iff] at ho
    rw [hnoParameters, List.forall₂_nil_left_iff] at hp
    exact ⟨h.classSet, hf, ho, hp⟩
  · rintro ⟨hs, rfl, rfl, rfl⟩
    refine ⟨hs, ?_, ?_, ?_⟩
    · rw [hnoFields]
      exact .nil
    · rw [hnoOwn]
      exact .nil
    · rw [hnoParameters]
      exact .nil

/-! ## 2. Where directories are -/

/-- **Where the directory of a class is**: at the offset of an item that is a directory of the
class.  A class without annotations has the offset zero. -/
def DirectoryAt (c : Catalog) (items : List Item) (d : ClassDef) (offset : UInt32) : Prop :=
  ¬ d.Annotated ∧ offset = 0 ∨
    d.Annotated ∧ ∃ i ∈ items, i.offset = offset ∧ c.DirectoryOf d i.bytes

/-- The directories of classes, of which some may be among earlier ones. -/
structure DirectoriesLaid (c : Catalog) (all : List ClassDef) (earlier items : List Item)
    (found : Directories) : Prop where
  written : found.written = items.length
  offsets : List.Forall₂ (c.DirectoryAt (earlier ++ items)) all found.offsets
  used : ∀ i ∈ items, i.offset ∈ found.offsets
  laid : ∀ i ∈ items, ∃ parts, i.Laid ItemKind.annotationsDirectory.alignment parts

theorem DirectoriesLaid.reuse {rest : List ClassDef} {earlier items : List Item}
    {found : Directories} {offset : UInt32} (h : c.DirectoriesLaid rest earlier items found)
    (hd : c.DirectoryAt (earlier ++ items) d offset) :
    c.DirectoriesLaid (d :: rest) earlier items (.reuse offset found) where
  written := h.written
  offsets := .cons hd h.offsets
  used i hi := List.mem_cons_of_mem _ (h.used i hi)
  laid := h.laid

theorem DirectoriesLaid.add {rest : List ClassDef} {earlier items : List Item}
    {found : Directories} {i : Item} {parts : List Part}
    (hi : i.Laid ItemKind.annotationsDirectory.alignment parts)
    (h : c.DirectoriesLaid rest (earlier ++ [i]) items found) (ha : d.Annotated)
    (hd : c.DirectoryOf d i.bytes) :
    c.DirectoriesLaid (d :: rest) earlier (i :: items) (.add i.offset found) where
  written := congrArg (· + 1) h.written
  offsets := by
    refine .cons (.inr ⟨ha, i, List.mem_append_right _ (List.mem_cons_self ..), rfl, hd⟩) ?_
    have hoffsets := h.offsets
    rwa [List.append_assoc, List.singleton_append] at hoffsets
  used := by
    rintro j (_ | ⟨_, hj⟩)
    · exact List.mem_cons_self ..
    · exact List.mem_cons_of_mem _ (h.used j hj)
  laid := by
    rintro j (_ | ⟨_, hj⟩)
    · exact ⟨parts, hi⟩
    · exact h.laid j hj

/-- **Directories** are laid in the order of the classes, and a class without annotated members
refers to an earlier one with its set, if there is one.  `earlier` has those to which `shared`
refers. -/
theorem lays_writeDirectoriesOf
    (hset : ∀ set offset, c.setOffsetOf set = .ok offset → offset ≠ 0) (all : List ClassDef)
    {shared : List (UInt32 × UInt32)} {earlier : List Item}
    (hshared : ∀ x ∈ shared, (⟨x.2, bareDirectory x.1⟩ : Item) ∈ earlier) :
    Lays (c.writeDirectoriesOf shared all) fun found items =>
      c.DirectoriesLaid all earlier items found := by
  induction all generalizing shared earlier with
  | nil => exact .pure ⟨rfl, .nil, by simp, by simp⟩
  | cons d rest ih =>
    have hadd : ∀ classSet (later : UInt32 → List (UInt32 × UInt32)), c.ClassSet d classSet →
        d.Annotated → (∀ i : Item, c.directory classSet d = .ok i.bytes →
          ∀ x ∈ later i.offset, (⟨x.2, bareDirectory x.1⟩ : Item) ∈ earlier ++ [i]) →
        Lays (do
          let offset ← Stream.item 4 [c.directory classSet d]
          return Directories.add offset (← c.writeDirectoriesOf (later offset) rest))
            fun found items => c.DirectoriesLaid (d :: rest) earlier items found := by
      intro classSet later hs ha hlater
      have hfilled : Part.Filled [c.directory classSet d] := Part.filled_cons fun data hdata => by
        obtain ⟨_, _, _, -, hpart⟩ := attaches_of_directory hs hdata
        exact directoryPart_ne_nil hpart
      refine .bind (.item (.inr rfl) hfilled) ?_
      rintro _ _ ⟨i, rfl, rfl, hi⟩
      have hbytes : c.directory classSet d = .ok i.bytes := by
        obtain ⟨x, y, hx, hy, hxy⟩ := Part.joined_cons_eq_ok.mp hi.bytes
        obtain rfl := Except.ok.inj hy
        rw [List.append_nil] at hxy
        rw [hx, hxy]
      refine .bind (ih (hlater i hbytes)) fun found items hfound => .pure ?_
      rw [List.append_nil]
      exact hfound.add hi ha ⟨classSet, attaches_of_directory hs hbytes⟩
    have hreuse : ∀ offset, (∀ items, c.DirectoryAt (earlier ++ items) d offset) → Lays (do
        return Directories.reuse offset (← c.writeDirectoriesOf shared rest))
          fun found items => c.DirectoriesLaid (d :: rest) earlier items found := by
      intro offset hoffset
      refine .bind (ih hshared) fun found items hfound => .pure ?_
      rw [List.append_nil]
      exact hfound.reuse (hoffset items)
    rw [writeDirectoriesOf]
    refine .ite_bind_nil (R := c.ClassSet d) (fun he => .pure ⟨⟨fun _ => rfl, ?_⟩, rfl⟩)
      (fun hne => (Lays.lift _).mono ?_) fun classSet hs => ?_
    · exact fun hne => (hne (List.isEmpty_iff.mp he)).elim
    · rintro classSet items ⟨hs, hitems⟩
      exact ⟨⟨fun he => (hne (List.isEmpty_iff.mpr he)).elim, fun _ => hs⟩, hitems⟩
    · split
      case isTrue hm =>
        exact hadd classSet (fun _ => shared) hs (.inr hm) fun i _ x hx =>
          List.mem_append_left _ (hshared x hx)
      case isFalse hm =>
        rw [Bool.not_eq_true] at hm
        dsimp only
        split
        case isTrue hz =>
          -- no set is at the offset zero, so the class has none
          refine hreuse 0 fun items => .inl ⟨?_, rfl⟩
          rintro (hne | hmembers)
          · exact hset _ _ (hs.2 hne) (beq_iff_eq.mp hz)
          · exact Bool.false_ne_true (hm.symm.trans hmembers)
        case isFalse hnz =>
          have hne : d.annotations ≠ [] := fun he => hnz (beq_iff_eq.mpr (hs.1 he))
          split
          case h_1 offset hl =>
            obtain ⟨front, back, hsplit, -⟩ := List.lookup_eq_some_iff.mp hl
            have hmem : (classSet, offset) ∈ shared := by
              rw [hsplit]
              exact List.mem_append_right _ (List.mem_cons_self ..)
            have hat := hshared _ hmem
            refine hreuse offset fun items =>
              .inr ⟨.inl hne, _, List.mem_append_left _ hat, rfl, ?_⟩
            exact ⟨classSet, [], [], [], (attaches_bare hm).mpr ⟨hs, rfl, rfl, rfl⟩,
              directoryPart_bare classSet⟩
          case h_2 =>
            refine hadd classSet (fun offset => (classSet, offset) :: shared) hs (.inl hne) ?_
            rintro i hi x (_ | ⟨_, hx⟩)
            · obtain ⟨_, _, _, hattaches, hpart⟩ := attaches_of_directory hs hi
              obtain ⟨-, rfl, rfl, rfl⟩ := (attaches_bare hm).mp hattaches
              rw [directoryPart_bare] at hpart
              rw [Except.ok.inj hpart]
              exact List.mem_append_right _ (List.mem_cons_self ..)
            · exact List.mem_append_left _ (hshared x hx)

theorem lays_writeDirectories
    (hset : ∀ set offset, c.setOffsetOf set = .ok offset → offset ≠ 0) :
    Lays c.writeDirectories fun found items => c.DirectoriesLaid c.classes [] items found ∧
      items.Pairwise fun i j => i.stop ≤ j.start :=
  (lays_writeDirectoriesOf hset c.classes (by simp)).apart

/-- The least offset of directories is that of the first one. -/
theorem DirectoriesLaid.entry_eq {all : List ClassDef} {items : List Item} {found : Directories}
    (h : c.DirectoriesLaid all [] items found)
    (hapart : items.Pairwise fun i j => i.stop ≤ j.start) :
    (ItemKind.annotationsDirectory, found.written, (present found.offsets).min?.getD 0) =
      (.annotationsDirectory, items.length, (items.map Item.offset).headD 0) := by
  have hmin : (present found.offsets).min?.getD 0 = (items.map Item.offset).headD 0 := by
    have hfrom : ∀ offset ∈ present found.offsets, ∃ i ∈ items, i.offset = offset := by
      intro offset ho
      obtain ⟨ho, hne⟩ := List.mem_filter.mp ho
      obtain ⟨d, -, ⟨-, rfl⟩ | ⟨-, i, hi, hoffset, -⟩⟩ := exists_of_mem_left h.offsets.flip _ ho
      · exact (bne_iff_ne.mp hne rfl).elim
      · exact ⟨i, hi, hoffset⟩
    have hto : ∀ i ∈ items, i.offset ∈ present found.offsets := by
      intro i hi
      obtain ⟨parts, hlaid⟩ := h.laid i hi
      exact List.mem_filter.mpr ⟨h.used i hi, bne_iff_ne.mpr hlaid.ne_zero⟩
    cases items with
    | nil =>
      have hnil : present found.offsets = [] := by
        refine List.eq_nil_iff_forall_not_mem.mpr fun offset ho => ?_
        obtain ⟨i, hi, -⟩ := hfrom offset ho
        exact List.not_mem_nil hi
      rw [hnil]
      rfl
    | cons i rest =>
      have hleast : (present found.offsets).min? = some i.offset := by
        refine List.min?_eq_some_iff.mpr ⟨hto i (List.mem_cons_self ..), fun offset ho => ?_⟩
        obtain ⟨j, hj, rfl⟩ := hfrom offset ho
        rcases List.mem_cons.mp hj with rfl | hj
        · exact UInt32.le_refl _
        · have hbefore := (List.pairwise_cons.mp hapart).1 j hj
          exact UInt32.le_iff_toNat_le.mpr (Nat.le_trans (Nat.le_add_right ..) hbefore)
      rw [hleast]
      rfl
  rw [h.written, hmin]

end Catalog

end Dalvik
