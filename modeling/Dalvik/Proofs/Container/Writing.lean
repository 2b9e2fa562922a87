/-
# The data section finds all that it looks up

Of a catalog that serves the writer, every layer of the data section is written without running
into a reference without an entry, provided that no class that is kept is unresolvable.  The layers
that set offsets leave the items as they are, so the catalog goes on serving.

* `resolves_writeSection` is this statement for the whole section;
* `shows_writeSection` and `serves_of_writeSection` say what a section that has been written
  was made of, and that its catalog still serves.
-/
import Dalvik.Container.DataSection
import Dalvik.Proofs.Container.Appending
import Dalvik.Proofs.Container.CodeItem
import Dalvik.Proofs.Container.Serving

namespace Dalvik

namespace Catalog

variable {options : Container.Options} {classes : List ClassDef} {c c' : Catalog}

/-! ## 1. Type lists and arrays -/

section Serves

variable (hc : c.Serves options classes)

include hc

/-- A type that is reached has an index. -/
theorem Serves.resolves_type {d : String} (h : Reached options classes (.type d)) :
    Resolves (c.indexer (.type d)) :=
  hc.resolves rfl h

omit hc in
theorem resolves_narrowIndex {pool : String} {index : UInt32} :
    Resolves (narrowIndex pool index) := by
  unfold narrowIndex
  split <;> simp

/-- A type that is reached has a half, or its index is too great, which is another failure. -/
theorem resolves_typeHalf {d : String} (h : Reached options classes (.type d)) :
    Resolves (c.typeHalf d) := by
  have hi := hc.resolves_type h
  simp [typeHalf, hi, resolves_narrowIndex]

/-- A layer that writes shared items and only sets their offsets leaves a catalog that serves. -/
theorem Serves.of_layer {α : Type} {alignment : Nat} {items : SharedItems α} {parts : α → List Part}
    (place : SharedItems α → Catalog) {s t : Stream}
    (h : (do return place (items.setOffsets
      (← Stream.items alignment (items.items.map parts))) : StreamWriter Catalog) s = .ok c' t)
    (hi : ∀ placed, (place placed).InStep)
    (hp : ∀ placed, placed.items = items.items → ∀ e, (place placed).peers e = c.peers e)
    (hd : ∀ placed, (place placed).classes = c.classes) : c'.Serves options classes := by
  obtain ⟨offsets, _, ho, h⟩ := stateBind_eq_ok.mp h
  obtain ⟨rfl, -⟩ := statePure_eq_ok.mp h
  have hl := (Stream.ok_of_items ho).1.trans (List.length_map ..)
  exact hc.congr (hi _) (hp _ (SharedItems.items_setOffsets hl)) (hd _)

omit hc in
/-- A table resolves if its words do; its count always does. -/
theorem resolves_tableParts {words : List (Except Error UInt32)}
    (h : ∀ w ∈ words, Resolves w) : ∀ p ∈ tableParts words, Resolves p := by
  simp only [tableParts, List.forall_mem_cons, wordPart, resolves_map, resolves_narrow32, true_and]
  intro p hp
  obtain ⟨w, hw, rfl⟩ := List.mem_map.mp hp
  exact resolves_map.mpr (h w hw)

omit hc in
/-- Strings refer to nothing. -/
theorem resolves_writeStrings : StepResolves c.writeStrings := by
  refine Stream.resolves_items fun item hi => ?_
  obtain ⟨value, -, rfl⟩ := List.mem_map.mp hi
  simp [stringParts]

/-- A list that is reached is one of types that are reached. -/
theorem resolves_writeTypeLists : StepResolves c.writeTypeLists := by
  refine .bind (Stream.resolves_items fun item hi => ?_) fun _ _ _ _ => .pure _
  obtain ⟨l, hl, rfl⟩ := List.mem_map.mp hi
  have hd := Reached.of_typeList (hc.stored _ (stored_typeList.mpr hl))
  simp only [typeListParts, List.forall_mem_cons, wordPart, resolves_map, resolves_narrow32,
    true_and]
  intro p hp
  obtain ⟨d, hm, rfl⟩ := List.mem_map.mp hp
  exact resolves_typeHalf hc (hd d hm)

/-- Writing type lists leaves a catalog that serves. -/
theorem serves_writeTypeLists {s t : Stream} (h : c.writeTypeLists s = .ok c' t) :
    c'.Serves options classes := by
  refine hc.of_layer (fun placed => { c with typeLists := placed }) h
    (fun _ => { hc.inStep with }) ?_ fun _ => rfl
  intro _ hi e
  cases e <;> simp [peers, hi]

/-- Initial values name what is reached; a zero that stands for one that is not given names
nothing. -/
theorem resolves_writeArrays (hr : ∀ d : ClassDef, d.Kept classes → ¬ d.Unresolvable) :
    StepResolves c.writeArrays := by
  refine .bind (Stream.resolves_items fun item hi => ?_) fun _ _ _ _ => .pure _
  obtain ⟨values, hl, rfl⟩ := List.mem_map.mp hi
  obtain ⟨d, hd, rfl⟩ := Reached.of_encodedArray (hc.stored _ (stored_encodedArray.mpr hl))
  simp only [EncodedValue.arrayParts, List.forall_mem_cons, resolves_count, true_and]
  refine EncodedValue.resolves_partsOfAll _ fun v hv => ?_
  rcases ClassDef.initial_or_zero hv with hi | ⟨descriptor, rfl⟩
  · exact hc.resolves_uses (fun e he => .named hd (.initial hi he))
      fun hm => hr d hd (.initial hi hm)
  · exact hc.resolves_uses (fun e he => (EncodedValue.zero_names he).elim)
      EncodedValue.zero_holdsHandle

theorem serves_writeArrays {s t : Stream} (h : c.writeArrays s = .ok c' t) :
    c'.Serves options classes := by
  refine hc.of_layer (fun placed => { c with encodedArrays := placed }) h
    (fun _ => { hc.inStep with }) ?_ fun _ => rfl
  intro _ hi e
  cases e <;> simp [peers, hi]

/-! ## 2. Annotations -/

/-- An annotation that is reached is one of a class that is kept, and so is what it names. -/
theorem resolves_writeAnnotations (hr : ∀ d : ClassDef, d.Kept classes → ¬ d.Unresolvable) :
    StepResolves c.writeAnnotations := by
  refine .bind (Stream.resolves_items fun item hi => ?_) fun _ _ _ _ => .pure _
  obtain ⟨a, ha, rfl⟩ := List.mem_map.mp hi
  obtain ⟨d, hd, ha⟩ := Reached.of_annotationItem (hc.stored _ (stored_annotationItem.mpr ha))
  refine Annotation.resolves_parts (hc.resolves_uses (fun e he => ?_) fun hm => ?_)
  · exact .named hd (.annotated ha he)
  · exact hr d hd (.annotated ha hm)

theorem serves_writeAnnotations {s t : Stream} (h : c.writeAnnotations s = .ok c' t) :
    c'.Serves options classes := by
  refine hc.of_layer (fun placed => { c with annotations := placed }) h
    (fun _ => { hc.inStep with }) ?_ fun _ => rfl
  intro _ hi e
  cases e <;> simp [peers, hi]

/-- The annotations of a set that is reached are in the catalog, and have offsets. -/
theorem resolves_writeSets : StepResolves c.writeSets := by
  refine .bind (Stream.resolves_items fun item hi => ?_) fun _ _ _ _ => .pure _
  obtain ⟨set, hs, rfl⟩ := List.mem_map.mp hi
  refine resolves_tableParts fun w hw => ?_
  obtain ⟨a, ha, rfl⟩ := List.mem_map.mp hw
  exact hc.resolves_annotation
    (Reached.of_annotationSet (hc.stored _ (stored_annotationSet.mpr hs)) a ha)

theorem serves_writeSets {s t : Stream} (h : c.writeSets s = .ok c' t) :
    c'.Serves options classes := by
  refine hc.of_layer (fun placed => { c with annotationSets := placed }) h
    (fun _ => { hc.inStep with }) ?_ fun _ => rfl
  intro _ hi e
  cases e <;> simp [peers, hi]

/-- The sets of a list that is reached are in the catalog; the empty set need not be there. -/
theorem resolves_writeSetLists : StepResolves c.writeSetLists := by
  refine .bind (Stream.resolves_items fun item hi => ?_) fun _ _ _ _ => .pure _
  obtain ⟨sets, hs, rfl⟩ := List.mem_map.mp hi
  refine resolves_tableParts fun w hw => ?_
  obtain ⟨set, hm, rfl⟩ := List.mem_map.mp hw
  split
  case isTrue => exact resolves_ok
  case isFalse hne =>
    refine hc.resolves_annotationSet ?_
    refine Reached.of_setList (hc.stored _ (stored_setList.mpr hs)) set hm ?_
    rintro rfl
    exact hne rfl

theorem serves_writeSetLists {s t : Stream} (h : c.writeSetLists s = .ok c' t) :
    c'.Serves options classes := by
  refine hc.of_layer (fun placed => { c with setLists := placed }) h
    (fun _ => { hc.inStep with }) ?_ fun _ => rfl
  intro _ hi e
  cases e <;> simp [peers, hi]

/-! ## 3. Directories -/

/-- The set of an owner is looked up only where it is not empty. -/
theorem resolves_setOffsetOf {d : ClassDef} {set : List Annotation} (hd : d.Kept classes)
    (hs : d.HasSet set) (hne : set.isEmpty = false) : Resolves (c.setOffsetOf set) := by
  refine hc.resolves_annotationSet (.named hd (.owned (.annotationSet hs ?_)))
  rintro rfl
  cases hne

/-- The annotated fields of a class have indices and sets. -/
theorem resolves_attachedFields {d : ClassDef} (hd : d.Kept classes) :
    Resolves (c.attachedFields d) := by
  refine resolves_mapM fun f hf => ?_
  obtain ⟨hf, hne⟩ := List.mem_filter.mp hf
  have hi : Resolves (c.indexer (.field (d.fieldRef f))) :=
    hc.resolves rfl (.named hd (.field hf))
  have hs := resolves_setOffsetOf hc hd (.inr (.inl ⟨f, hf, rfl⟩)) (by simpa using hne)
  simp [hi, hs]

/-- An annotated method has an index and a set, and a list of sets if its parameters are
annotated. -/
theorem resolves_attachedMethod {d : ClassDef} {m : Method} (hd : d.Kept classes)
    (hm : m ∈ d.methods) : Resolves (c.attachedMethod d m) := by
  have hi : Resolves (c.indexer (.method (d.methodRef m))) :=
    hc.resolves rfl (.named hd (.method hm))
  have ho : Resolves (c.ownSet? m) := by
    unfold ownSet?
    split
    case isTrue => exact resolves_ok
    case isFalse hne =>
      have hs := resolves_setOffsetOf hc hd (.inr (.inr ⟨m, hm, .inl rfl⟩)) (by simpa using hne)
      simp [hs]
  have hp : Resolves (c.parameterSets? m) := by
    unfold parameterSets?
    split
    case isTrue hp => simp [hc.resolves_setList (.named hd (.owned (.setList hm hp)))]
    case isFalse => exact resolves_ok
  simp [attachedMethod, hi, ho, hp]

/-- A directory is made of what is attached; its counts can only be too great. -/
theorem resolves_directory {d : ClassDef} {classSet : UInt32} (hd : d.Kept classes) :
    Resolves (c.directory classSet d) := by
  have hf := resolves_attachedFields hc hd
  have hm : Resolves (d.methods.mapM (c.attachedMethod d)) :=
    resolves_mapM fun m hm => resolves_attachedMethod hc hd hm
  have hn : ∀ groups : List (List Attached),
      Resolves (groups.mapM fun g => Bytes.narrow32 g.length) :=
    fun _ => resolves_mapM fun _ _ => resolves_narrow32
  rw [directory, resolves_bind]
  refine ⟨hf, fun fields _ => ?_⟩
  rw [resolves_bind]
  refine ⟨hm, fun methods _ => ?_⟩
  rw [resolves_bind]
  exact ⟨hn _, fun _ _ => resolves_pure⟩

/-- The induction is on the classes; whether a directory is shared does not matter here. -/
theorem resolves_writeDirectoriesOf {all : List ClassDef} (h : ∀ d ∈ all, d.Kept classes)
    (shared : List (UInt32 × UInt32)) : StepResolves (c.writeDirectoriesOf shared all) := by
  induction all generalizing shared with
  | nil => exact .pure _
  | cons d rest ih =>
    have hd := h d (List.mem_cons_self ..)
    have hrest := ih fun e he => h e (List.mem_cons_of_mem _ he)
    have hitem : ∀ classSet, StepResolves (Stream.item 4 [c.directory classSet d]) :=
      fun _ => Stream.resolves_item (List.forall_mem_singleton.mpr (resolves_directory hc hd))
    have hadd : ∀ classSet (later : UInt32 → List (UInt32 × UInt32)), StepResolves (do
        let offset ← Stream.item 4 [c.directory classSet d]
        return Directories.add offset (← c.writeDirectoriesOf (later offset) rest)) :=
      fun _ _ => .bind (hitem _) fun _ _ _ _ => .bind (hrest _) fun _ _ _ _ => .pure _
    have hreuse : ∀ offset, StepResolves (do
        return Directories.reuse offset (← c.writeDirectoriesOf shared rest)) :=
      fun _ => .bind (hrest _) fun _ _ _ _ => .pure _
    rw [writeDirectoriesOf]
    refine .ite_bind (fun _ => .pure _) (fun hne => .lift ?_) fun classSet => ?_
    · exact resolves_setOffsetOf hc hd (.inl rfl) (by simpa using hne)
    · split
      · exact hadd classSet fun _ => shared
      · dsimp only
        split
        · exact hreuse 0
        · split
          · exact hreuse _
          · exact hadd classSet fun offset => (classSet, offset) :: shared

theorem resolves_writeDirectories : StepResolves c.writeDirectories :=
  resolves_writeDirectoriesOf hc (fun d hd => (hc.kept d).mp hd) []

/-! ## 4. Code and class data -/

omit hc in
/-- Code that is written is that of a method of a class. -/
theorem mem_methodsWithCode {x : MethodRef × Method × Body} : x ∈ c.methodsWithCode ↔
    ∃ d ∈ c.classes, ∃ m ∈ d.methods, ∃ b, m.body? = some b ∧ (d.methodRef m, m, b) = x := by
  simp only [methodsWithCode, List.mem_flatMap, List.mem_map, Option.mem_toList]

/-- Instructions name what is reached, bare indices left out, and so do handlers. -/
theorem resolves_writeCodeOf (hr : ∀ d : ClassDef, d.Kept classes → ¬ d.Unresolvable)
    {all : List (MethodRef × Method × Body)}
    (h : ∀ x ∈ all, ∃ d : ClassDef, d.Kept classes ∧ d.HasBody x.2.2)
    (before : ClassDef.CodeOffsets) : StepResolves (c.writeCodeOf options before all) := by
  induction all generalizing before with
  | nil => exact .pure _
  | cons x rest ih =>
    obtain ⟨r, m, b⟩ := x
    obtain ⟨d, hd, hb⟩ := h _ (List.mem_cons_self ..)
    have hrest := ih fun y hy => h y (List.mem_cons_of_mem _ hy)
    refine .bind (Stream.resolves_inside _ (Method.resolves_writeCode (fun r' hr' => ?_)
      fun s hs => ?_)) fun _ _ _ _ => hrest _
    · rcases r'.bare_or_entity with hbare | ⟨e, he⟩
      · exact (hr d hd (.body hb hr' hbare)).elim
      · exact hc.resolves he (.named hd (.reference hb hr' he))
    · exact hc.resolves_type (.named hd (.handler hb hs))

theorem resolves_writeCode (hr : ∀ d : ClassDef, d.Kept classes → ¬ d.Unresolvable) :
    StepResolves (c.writeCode options) := by
  refine resolves_writeCodeOf hc hr (fun x hx => ?_) []
  obtain ⟨d, hd, m, hm, b, hb, rfl⟩ := mem_methodsWithCode.mp hx
  exact ⟨d, (hc.kept d).mp hd, m, hm, hb⟩

/-- Members have indices; the offset of code is looked up among those written, and zero
otherwise. -/
theorem resolves_writeData {d : ClassDef} {code : ClassDef.CodeOffsets} (hd : d.Kept classes) :
    StepResolves (d.writeData c.indexer code) := by
  have hf : Resolves (d.fieldEntries c.indexer) := resolves_mapM fun f hf => by
    have hi : Resolves (c.indexer (.field (d.fieldRef f))) :=
      hc.resolves rfl (.named hd (.field hf))
    simp [hi]
  have hm : Resolves (d.methodEntries c.indexer code) := resolves_mapM fun m hm => by
    have hi : Resolves (c.indexer (.method (d.methodRef m))) :=
      hc.resolves rfl (.named hd (.method hm))
    simp [hi]
  have hg : Resolves (d.memberGroups c.indexer code) := by simp [ClassDef.memberGroups, hf, hm]
  unfold ClassDef.writeData
  split
  · exact .pure _
  · refine .bind (.lift hg) fun _ groups _ _ => Stream.resolves_item ?_
    intro p hp
    rcases List.mem_append.mp hp with hp | hp
    · obtain ⟨g, -, rfl⟩ := List.mem_map.mp hp
      exact resolves_count
    · obtain ⟨g, -, rfl⟩ := List.mem_map.mp hp
      exact resolves_ok

theorem resolves_writeClassData {code : ClassDef.CodeOffsets} :
    StepResolves (c.writeClassData code) :=
  .mapM fun d hd => Stream.resolves_inside _ (resolves_writeData hc ((hc.kept d).mp hd))

end Serves

/-! ## 5. The data section -/

theorem resolves_add {m : MapList} {kind : ItemKind} {count : Nat} {offset : UInt32} :
    Resolves (m.add kind count offset) := by
  unfold MapList.add
  split <;> simp

/-- The map list looks nothing up. -/
theorem resolves_mapOf {entries : List (ItemKind × Nat × UInt32)} : Resolves (mapOf entries) :=
  resolves_foldlM fun _ _ _ => resolves_add

theorem resolves_writeMap {m : MapList} : StepResolves m.write := by
  refine .bind (Stream.resolves_align _) fun _ _ _ _ => ?_
  refine .bind Stream.resolves_position fun _ _ _ _ => ?_
  refine .bind (.lift resolves_add) fun _ _ _ _ => ?_
  refine .bind (Stream.resolves_parts ?_) fun _ _ _ _ => .pure _
  simp [MapList.parts]

/-- **The data section** finds all that it looks up. -/
theorem resolves_writeSection (hc : c.Serves options classes)
    (hr : ∀ d : ClassDef, d.Kept classes → ¬ d.Unresolvable) (tables : IdTables) :
    StepResolves (c.writeSection options tables) := by
  have halign := Stream.resolves_align 4
  refine .bind halign fun _ _ _ _ => .bind resolves_writeStrings fun _ _ _ _ => ?_
  refine .bind halign fun _ _ _ _ => .bind (resolves_writeTypeLists hc) fun _ c₁ _ h₁ => ?_
  have hc := serves_writeTypeLists hc h₁
  refine .bind halign fun _ _ _ _ => .bind (resolves_writeArrays hc hr) fun _ c₂ _ h₂ => ?_
  have hc := serves_writeArrays hc h₂
  refine .bind halign fun _ _ _ _ => .bind (resolves_writeAnnotations hc hr) fun _ c₃ _ h₃ => ?_
  have hc := serves_writeAnnotations hc h₃
  refine .bind halign fun _ _ _ _ => .bind (resolves_writeSets hc) fun _ c₄ _ h₄ => ?_
  have hc := serves_writeSets hc h₄
  refine .bind halign fun _ _ _ _ => .bind (resolves_writeSetLists hc) fun _ c₅ _ h₅ => ?_
  have hc := serves_writeSetLists hc h₅
  refine .bind halign fun _ _ _ _ => .bind (resolves_writeDirectories hc) fun _ _ _ _ => ?_
  refine .bind halign fun _ _ _ _ => .bind (resolves_writeCode hc hr) fun _ _ _ _ => ?_
  refine .bind halign fun _ _ _ _ => .bind (resolves_writeClassData hc) fun _ _ _ _ => ?_
  exact .bind (.lift resolves_mapOf) fun _ _ _ _ => .bind resolves_writeMap fun _ _ _ _ => .pure _

/-- **The layers** of the data section, each from the catalog that the last one left, and all seen
from the stream at the end. -/
theorem shows_writeSection {tables : IdTables} :
    Stream.Shows (c.writeSection options tables) fun placed t =>
      ∃ (c₁ c₂ c₃ c₄ : Catalog) (directories : Directories) (code : ClassDef.CodeOffsets),
        Stream.Ran c.writeStrings placed.strings t ∧ Stream.Ran c.writeTypeLists c₁ t ∧
        Stream.Ran c₁.writeArrays c₂ t ∧ Stream.Ran c₂.writeAnnotations c₃ t ∧
        Stream.Ran c₃.writeSets c₄ t ∧ Stream.Ran c₄.writeSetLists placed.catalog t ∧
        Stream.Ran placed.catalog.writeDirectories directories t ∧
        Stream.Ran (placed.catalog.writeCode options) code t ∧
        Stream.Ran (placed.catalog.writeClassData code) placed.classData t ∧
        placed.directories = directories.offsets := by
  have halign := StepExtends.align 4
  have hshows : Stream.Shows (c.writeSection options tables) _ :=
    .bind halign fun _ => .bind appends_writeStrings fun _ =>
    .bind halign fun _ => .bind appends_writeTypeLists fun _ =>
    .bind halign fun _ => .bind appends_writeArrays fun _ =>
    .bind halign fun _ => .bind appends_writeAnnotations fun _ =>
    .bind halign fun _ => .bind appends_writeSets fun _ =>
    .bind halign fun _ => .bind appends_writeSetLists fun _ =>
    .bind halign fun _ => .bind appends_writeDirectories fun _ =>
    .bind halign fun _ => .bind appends_writeCode fun _ =>
    .bind halign fun _ => .bind appends_writeClassData fun _ =>
    .bind (.lift _) fun _ => .bind MapList.appends_write fun _ => .pure _
  refine ⟨hshows.appends, fun h => ?_⟩
  obtain ⟨_, -, strings, hs, _, -, c₁, h₁, _, -, c₂, h₂, _, -, c₃, h₃, _, -, c₄, h₄, _, -, c₅, h₅,
    _, -, directories, hd, _, -, code, hc, _, -, classData, hm, _, -, _, -, rfl⟩ := hshows.shows h
  exact ⟨c₁, c₂, c₃, c₄, directories, code, hs, h₁, h₂, h₃, h₄, h₅, hd, hc, hm, rfl⟩

/-- The catalog that the data section leaves still serves. -/
theorem serves_of_writeSection (hc : c.Serves options classes) {tables : IdTables} {s t : Stream}
    {placed : Placed} (h : c.writeSection options tables s = .ok placed t) :
    placed.catalog.Serves options classes := by
  obtain ⟨c₁, c₂, c₃, c₄, _, _, -, ⟨_, _, h₁, -⟩, ⟨_, _, h₂, -⟩, ⟨_, _, h₃, -⟩, ⟨_, _, h₄, -⟩,
    ⟨_, _, h₅, -⟩, -⟩ := shows_writeSection.of_ok h
  have hc := serves_writeTypeLists hc h₁
  have hc := serves_writeArrays hc h₂
  have hc := serves_writeAnnotations hc h₃
  have hc := serves_writeSets hc h₄
  exact serves_writeSetLists hc h₅

end Catalog

end Dalvik
