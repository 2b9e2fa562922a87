/-
# What a catalog serves the writer

After discovery, and after each layer of shared items has got its offsets, the catalog has exactly
what is reached.  `Serves` says so, and what the writer looks up follows from it: a reference to
something reached has an index, and a shared item that is reached has an offset.

What is left to refuse is bare: call sites, method handles and raw indices.  `Unresolvable` says of
a class that it holds one where it would be written.
-/
import Dalvik.Container.IdTables
import Dalvik.Proofs.Container.Discovery
import Dalvik.Proofs.Value.Resolving

namespace Dalvik

/-! ## 1. What has no index -/

/-- A reference that no pool of a container can have. -/
inductive Reference.IsBare : Reference → Prop
  | callSite (index : UInt32) : IsBare (.callSite index)
  | methodHandle (index : UInt32) : IsBare (.methodHandle index)
  | raw (kind : ReferenceKind) (index : UInt32) : IsBare (.raw kind index)

theorem Reference.bare_or_entity (r : Reference) : r.IsBare ∨ ∃ e, r.entity? = some e := by
  cases r with
  | callSite i => exact .inl (.callSite i)
  | methodHandle i => exact .inl (.methodHandle i)
  | raw k i => exact .inl (.raw k i)
  | _ => exact .inr ⟨_, rfl⟩

/-- A method handle is the value, or at some depth inside it. -/
def EncodedValue.HoldsHandle (v : EncodedValue) : Prop :=
  ∃ index, (EncodedValue.methodHandle index).Inside v

theorem EncodedValue.zero_holdsHandle {descriptor : String} :
    ¬ (EncodedValue.zero descriptor).HoldsHandle := by
  rintro ⟨i, h⟩
  unfold zero zeroOf at h
  split at h <;> cases h

/-- A method handle is at some depth inside the annotation. -/
def Annotation.HoldsHandle (a : Annotation) : Prop :=
  (EncodedValue.annotationValue a.content).HoldsHandle

/-- **A class that cannot be written**: a body holds a call site, a method handle or a raw index, or
the initial value of a static field or an annotation holds a method handle. -/
inductive ClassDef.Unresolvable (d : ClassDef) : Prop
  | body {b : Body} {r : Reference} (hb : d.HasBody b) (hr : b.Refers r) (h : r.IsBare)
  | initial {v : EncodedValue} (hv : d.Initial v) (h : v.HoldsHandle)
  | annotated {a : Annotation} (ha : d.HasAnnotation a) (h : a.HoldsHandle)

/-! ## 2. Where shared items come from -/

open Catalog (Pooled)

theorem EncodedValue.Names.pooled {v : EncodedValue} {e : Entity} (h : v.Names e) : Pooled e := by
  obtain ⟨w, -, h⟩ := h
  cases h <;> trivial

theorem Reference.pooled {r : Reference} {e : Entity} (h : r.entity? = some e) : Pooled e := by
  cases r <;> cases h <;> trivial

/-- A shared item that a class names is its own. -/
theorem ClassDef.Names.owns {d : ClassDef} {e : Entity} (h : d.Names e) (he : ¬ Pooled e) :
    d.Owns e := by
  cases h with
  | initial _ h => exact (he h.pooled).elim
  | annotated _ h => exact (he (EncodedValue.Names.pooled h)).elim
  | reference _ _ h => exact (he (Reference.pooled h)).elim
  | owned h => exact h
  | _ => exact (he trivial).elim

namespace Reached

variable {options : Container.Options} {classes : List ClassDef}

theorem of_typeList {l : List String} (h : Reached options classes (.typeList l)) :
    ∀ d ∈ l, Reached options classes (.type d) := by
  intro d hd
  cases h with
  | named hk h => cases h.owns id with
    | interfaces => exact .named hk (.interface hd)
  | implied hp h => cases h with
    | parameters => exact .implied hp (.parameter hd)

theorem of_encodedArray {values : List EncodedValue}
    (h : Reached options classes (.encodedArray values)) :
    ∃ d : ClassDef, d.Kept classes ∧ values = d.staticValues := by
  cases h with
  | named hk h => cases h.owns id with
    | staticValues => exact ⟨_, hk, rfl⟩
  | implied _ h => cases h

theorem of_annotationItem {a : Annotation} (h : Reached options classes (.annotationItem a)) :
    ∃ d : ClassDef, d.Kept classes ∧ d.HasAnnotation a := by
  cases h with
  | named hk h => cases h.owns id with
    | annotationItem ha => exact ⟨_, hk, ha⟩
  | implied _ h => cases h

theorem of_annotationSet {set : List Annotation}
    (h : Reached options classes (.annotationSet set)) :
    ∀ a ∈ set, Reached options classes (.annotationItem a) := by
  intro a ha
  cases h with
  | named hk h => cases h.owns id with
    | @annotationSet s hs =>
      have hm : a ∈ s := (List.mergeSort_perm ..).mem_iff.mp ha
      exact .named hk (.owned (.annotationItem ⟨s, hs, hm⟩))
  | implied _ h => cases h
  | emptySet => exact (List.not_mem_nil ha).elim

theorem of_setList {sets : List (List Annotation)} (h : Reached options classes (.setList sets)) :
    ∀ set ∈ sets, set ≠ [] → Reached options classes (.annotationSet set) := by
  intro set hset hne
  cases h with
  | named hk h => cases h.owns id with
    | @setList m hm =>
      obtain ⟨s, hs, rfl⟩ := List.mem_map.mp hset
      refine .named hk (.owned (.annotationSet (.inr (.inr ⟨m, hm, .inr hs⟩)) ?_))
      rintro rfl
      exact hne List.mergeSort_nil
  | implied _ h => cases h

end Reached

/-! ## 3. Shared items -/

namespace SharedItems

variable {α : Type} [Keyed α] {t : SharedItems α} {a : α}

theorem offsetOf_of_has (h : t.Has a) : ∃ offset, t.offsetOf a = .ok offset := by
  obtain ⟨place, hp⟩ := Option.isSome_iff_exists.mp (index?_isSome.mpr h)
  have hlt : place < t.offsets.length := by
    rw [offsets, List.length_map]
    exact (List.findIdx?_eq_some_iff_getElem.mp hp).1
  have ho : t.offsetAt? place = some t.offsets[place] := List.getElem?_eq_getElem hlt
  exact ⟨_, by rw [offsetOf, hp, Option.bind_some, ho]⟩

theorem resolves_offsetOf (h : t.Has a) : Resolves (t.offsetOf a) := by
  obtain ⟨offset, ho⟩ := offsetOf_of_has h
  rw [ho]
  exact resolves_ok

omit [Keyed α] in
theorem items_setOffsets {offsets : List UInt32} (h : offsets.length = t.items.length) :
    (t.setOffsets offsets).items = t.items :=
  List.map_fst_zip (Nat.le_of_eq h.symm)

end SharedItems

namespace Catalog

/-! ## 4. Serving -/

/-- The catalog has exactly what is reached from classes, and the classes in their order; its maps
tell where its items are. -/
structure Serves (options : Container.Options) (classes : List ClassDef) (c : Catalog) : Prop where
  inStep : c.InStep
  stored : ∀ e, c.Stored e → Reached options classes e
  holds : ∀ e, Reached options classes e → c.Holds e
  kept : ∀ d, d ∈ c.classes ↔ d.Kept classes

variable {options : Container.Options} {classes : List ClassDef} {c c' : Catalog}

theorem serves_of_discover (h : discover options classes = .ok c) : c.Serves options classes where
  inStep := inStep_of_discover h
  stored _ he := reached_of_stored h he
  holds _ he := holds_of_reached h he
  kept d := by rw [classes_of_discover h, ClassDef.mem_inOrder]

/-- What the catalog has, has a place. -/
theorem place?_isSome_of_stored (hc : c.InStep) {r : Reference} {e : Entity}
    (hr : r.entity? = some e) (he : c.Stored e) : (c.place? r).isSome = true := by
  cases r <;> cases hr
  · exact hc.strings.index?_isSome.mpr (stored_string.mp he)
  · exact hc.types.index?_isSome.mpr (stored_type.mp he)
  · exact hc.fields.index?_isSome.mpr (stored_field.mp he)
  · exact hc.methods.index?_isSome.mpr (stored_method.mp he)
  · exact hc.protos.index?_isSome.mpr (stored_proto.mp he)

theorem indexer_of_bare {r : Reference} (h : r.IsBare) :
    c.indexer r = .error (.danglingReference r.text) := by
  cases h <;> rfl

namespace Serves

/-- Only the items of a catalog matter, not their offsets. -/
theorem congr (hc : c.Serves options classes) (hi : c'.InStep) (hp : ∀ e, c'.peers e = c.peers e)
    (hd : c'.classes = c.classes) : c'.Serves options classes := by
  have hs : ∀ e, c'.Stored e ↔ c.Stored e := fun e => by rw [Stored, Stored, hp]
  refine ⟨hi, fun e he => hc.stored e ((hs e).mp he), fun e he => ?_, fun d => by rw [hd, hc.kept]⟩
  obtain ⟨x, hx, hl⟩ := hc.holds e he
  exact ⟨x, (hs x).mpr hx, hl⟩

variable (hc : c.Serves options classes)

include hc

/-- **What is reached has an index.** -/
theorem index {r : Reference} {e : Entity} (hr : r.entity? = some e)
    (he : Reached options classes e) : ∃ n, c.indexer r = .ok n := by
  have hst := (hc.holds e he).stored (Reference.pooled hr)
  obtain ⟨place, hp⟩ := Option.isSome_iff_exists.mp (place?_isSome_of_stored hc.inStep hr hst)
  exact ⟨place.toUInt32, by rw [indexer, hp]⟩

theorem resolves {r : Reference} {e : Entity} (hr : r.entity? = some e)
    (he : Reached options classes e) : Resolves (c.indexer r) := by
  obtain ⟨n, hn⟩ := hc.index hr he
  rw [hn]
  exact resolves_ok

/-- A value whose names are reached, without a method handle, uses only what has an index. -/
theorem resolves_uses {v : EncodedValue} (hn : ∀ e, v.Names e → Reached options classes e)
    (hm : ¬ v.HoldsHandle) :
    ∀ (w : EncodedValue) r, w.Inside v → w.Uses r → Resolves (c.indexer r) := by
  intro w r hw hu
  cases hu with
  | string s => exact hc.resolves rfl (hn _ ⟨_, hw, .string s⟩)
  | type d => exact hc.resolves rfl (hn _ ⟨_, hw, .type d⟩)
  | field f => exact hc.resolves rfl (hn _ ⟨_, hw, .field f⟩)
  | enum f => exact hc.resolves rfl (hn _ ⟨_, hw, .enum f⟩)
  | method m => exact hc.resolves rfl (hn _ ⟨_, hw, .method m⟩)
  | methodType p => exact hc.resolves rfl (hn _ ⟨_, hw, .methodType p⟩)
  | methodHandle i => exact (hm ⟨i, hw⟩).elim
  | annotationType a => exact hc.resolves rfl (hn _ ⟨_, hw, .annotationType a⟩)
  | elementName h => exact hc.resolves rfl (hn _ ⟨_, hw, .elementName h⟩)

theorem resolves_typeList {l : List String} (h : Reached options classes (.typeList l)) :
    Resolves (c.typeLists.offsetOf l) :=
  SharedItems.resolves_offsetOf (holds_typeList.mp (hc.holds _ h))

theorem resolves_encodedArray {l : List EncodedValue}
    (h : Reached options classes (.encodedArray l)) : Resolves (c.encodedArrays.offsetOf l) :=
  SharedItems.resolves_offsetOf (holds_encodedArray.mp (hc.holds _ h))

theorem resolves_annotation {a : Annotation} (h : Reached options classes (.annotationItem a)) :
    Resolves (c.annotations.offsetOf a) :=
  SharedItems.resolves_offsetOf (holds_annotationItem.mp (hc.holds _ h))

theorem resolves_annotationSet {s : List Annotation}
    (h : Reached options classes (.annotationSet s)) :
    Resolves (c.annotationSets.offsetOf s) :=
  SharedItems.resolves_offsetOf (holds_annotationSet.mp (hc.holds _ h))

theorem resolves_setList {l : List (List Annotation)} (h : Reached options classes (.setList l)) :
    Resolves (c.setLists.offsetOf l) :=
  SharedItems.resolves_offsetOf (holds_setList.mp (hc.holds _ h))

end Serves

end Catalog

end Dalvik
