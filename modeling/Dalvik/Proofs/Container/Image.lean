/-
# Whole containers find all that they look up

Discovery fails for repeated members and for lack of room, but never for a reference without an
entry; the records of the id tables look up only what is reached, and so does the data section.
What is left of a container (places, sizes, the header, the output) looks up nothing.

`resolves_write` puts this together for the bytes of a container.
-/
import Dalvik.Container.Image
import Dalvik.Proofs.Container.Writing
import Dalvik.Proofs.Header

namespace Dalvik

namespace Catalog

variable {options : Container.Options} {classes : List ClassDef} {c c' : Catalog}

/-! ## 1. Discovery -/

theorem resolves_insert {e : Entity} : Resolves (c.insert e) := by
  have hp : ∀ {α : Type} [BEq α] (p : Pool α) (a : α), Resolves (p.add a) := fun p a => by
    unfold Pool.add
    repeat' split
    all_goals simp
  have hs : ∀ {α : Type} [Keyed α] (t : SharedItems α) (a : α), Resolves (t.intern a) :=
    fun t a => by
      unfold SharedItems.intern
      repeat' split
      all_goals simp
  cases e <;> simp [insert, hp, hs]

theorem resolves_insertAll {entities : List Entity} : Resolves (c.insertAll entities) :=
  resolves_foldlM fun _ _ _ => resolves_insert

theorem Adds.resolves {n : Nat} {add : Catalog → Except Error Catalog} {entities : List Entity}
    (h : Adds n add entities) (hc : c.ClosedTo n) : Resolves (add c) := by
  rw [h.eq c hc]
  exact resolves_insertAll

theorem Adds.closed {n : Nat} {add : Catalog → Except Error Catalog} {entities : List Entity}
    (h : Adds n add entities) (hc : c.ClosedTo n) (ha : add c = .ok c') : c'.ClosedTo n := by
  rw [h.eq c hc] at ha
  exact hc.insertAll h.complete ha

/-- Members are added up to the first that repeats another. -/
theorem resolves_addMembers {n : Nat} {α ρ : Type} [BEq ρ] {reference : α → ρ} {twice : ρ → Error}
    {add : Catalog → α → Except Error Catalog} {of : α → List Entity}
    (h : ∀ a, Adds n (add · a) (of a)) (ht : ∀ r what, twice r ≠ .danglingReference what)
    {members : List α} {seen : List ρ} (hc : c.ClosedTo n) :
    Resolves (addMembers reference twice add c seen members) := by
  induction members generalizing c seen with
  | nil => exact resolves_ok
  | cons a rest ih =>
    have hadd : Resolves (do
        let c ← add c a
        addMembers reference twice add c (reference a :: seen) rest) := by
      rw [resolves_bind]
      exact ⟨(h a).resolves hc, fun c' hc' => ih ((h a).closed hc hc')⟩
    simp only [addMembers]
    split
    · simp [ht]
    · exact hadd

theorem resolves_addClass {d : ClassDef} (hc : c.ClosedTo 3) : Resolves (c.addClass d) := by
  have halone := addClassAlone_adds (Nat.lt_succ_self 2) d
  have hfield := addFieldOf_adds (Nat.lt_succ_self 2) d
  have hmethod := addMethodOf_adds (Nat.lt_succ_self 2) d
  rw [addClass, resolves_bind]
  refine ⟨halone.resolves hc, fun c₁ h₁ => ?_⟩
  have hc₁ := halone.closed hc h₁
  rw [resolves_bind]
  refine ⟨resolves_addMembers hfield (fun _ _ h => by cases h) hc₁, fun c₂ h₂ => ?_⟩
  have hadds : Adds 3 (fun c => addMembers d.fieldRef fieldTwice (addFieldOf d) c [] d.fields) _ :=
    addMembers_adds hfield (nodup_of_addMembers h₂).1 fun _ _ => List.not_mem_nil
  exact resolves_addMembers hmethod (fun _ _ h => by cases h) (hadds.closed hc₁ h₂)

theorem closed_of_addClass {d : ClassDef} (hc : c.ClosedTo 3) (h : c.addClass d = .ok c') :
    c'.ClosedTo 3 :=
  have ⟨hf, hm⟩ := nodup_of_addClass h
  (addClass_adds (Nat.lt_succ_self 2) d hf hm).closed hc h

theorem resolves_freezeAs {α : Type} {p : Pool α} {order : List α} :
    Resolves (p.freezeAs order) := by
  have hnumbered : ∀ (items : List α) (indices : List (α × UInt32)) (place : Nat),
      Resolves (Pool.numbered indices place items) := by
    intro items
    induction items with
    | nil => exact fun _ _ => resolves_ok
    | cons a rest ih =>
      intro indices place
      rw [Pool.numbered, resolves_bind]
      exact ⟨resolves_narrow32, fun index _ => ih _ _⟩
  simp [Pool.freezeAs, Pool.reindex, hnumbered]

theorem resolves_freeze : Resolves c.freeze := by
  simp [freeze, freezeNames, freezeProtos, freezeMembers, Pool.freezeWith, Pool.freezeBy,
    resolves_freezeAs]

theorem resolves_discover : Resolves (discover options classes) := by
  have hclasses : ∀ (all : List ClassDef) (c : Catalog), c.ClosedTo 3 →
      Resolves (all.foldlM addClass c) := by
    intro all
    induction all with
    | nil => exact fun _ _ => resolves_ok
    | cons d rest ih =>
      intro c hc
      rw [List.foldlM_cons, resolves_bind]
      exact ⟨resolves_addClass hc, fun c' h => ih c' (closed_of_addClass hc h)⟩
  rw [discover, addEmptySet_eq, resolves_bind]
  refine ⟨resolves_insertAll, fun c h => ?_⟩
  rw [resolves_bind]
  refine ⟨hclasses _ c ?_, fun _ _ => resolves_freeze⟩
  exact (closedTo_new 3 (ClassDef.inOrder classes)).insertAll complete_ofEmptySet h

end Catalog

/-! ## 2. The id tables -/

theorem Table.resolves_place {next : UInt32} {count recordSize : Nat} :
    Resolves (Table.place next count recordSize) := by
  rw [place, resolves_bind]
  refine ⟨resolves_narrow32, fun n _ => ?_⟩
  split
  · exact resolves_pure
  · dsimp only
    split <;> simp

theorem IdTables.resolves_ofCatalog {c : Catalog} : Resolves (IdTables.ofCatalog c) := by
  simp [ofCatalog, Table.resolves_place]

namespace Catalog

section Records

variable {options : Container.Options} {classes : List ClassDef} {c : Catalog}
variable (hc : c.Serves options classes)

include hc

theorem resolves_stringWord {s : String} (h : Reached options classes (.string s)) :
    Resolves (c.stringWord s) :=
  resolves_map.mpr (hc.resolves rfl h)

theorem resolves_typeWord {d : String} (h : Reached options classes (.type d)) :
    Resolves (c.typeWord d) :=
  resolves_map.mpr (hc.resolves rfl h)

theorem resolves_typeListOffset {l : List String}
    (h : l ≠ [] → Reached options classes (.typeList l)) : Resolves (c.typeListOffset l) := by
  unfold typeListOffset
  split
  case isTrue => exact resolves_ok
  case isFalse hl => exact hc.resolves_typeList (h (by simpa using hl))

theorem resolves_encodedArrayOffset {l : List EncodedValue}
    (h : l ≠ [] → Reached options classes (.encodedArray l)) :
    Resolves (c.encodedArrayOffset l) := by
  unfold encodedArrayOffset
  split
  case isTrue => exact resolves_ok
  case isFalse hl => exact hc.resolves_encodedArray (h (by simpa using hl))

theorem resolves_protoParts {p : Proto} (h : Reached options classes (.proto p)) :
    ∀ part ∈ c.protoParts p, Resolves part := by
  have hl := resolves_typeListOffset hc fun hl => h.implied (.parameters hl)
  simp only [protoParts, List.forall_mem_cons]
  refine ⟨resolves_stringWord hc (h.implied (.shorty p)),
    resolves_typeWord hc (h.implied (.returnType p)), resolves_map.mpr hl, ?_⟩
  exact fun _ hn => (List.not_mem_nil hn).elim

theorem resolves_fieldParts {f : FieldRef} (h : Reached options classes (.field f)) :
    ∀ part ∈ c.fieldParts f, Resolves part := by
  simp only [fieldParts, List.forall_mem_cons]
  refine ⟨resolves_typeHalf hc (h.implied (.fieldOwner f)),
    resolves_typeHalf hc (h.implied (.fieldType f)),
    resolves_stringWord hc (h.implied (.fieldName f)), ?_⟩
  exact fun _ hn => (List.not_mem_nil hn).elim

theorem resolves_methodParts {m : MethodRef} (h : Reached options classes (.method m)) :
    ∀ part ∈ c.methodParts m, Resolves part := by
  have hp : Resolves (c.protoHalf m.proto) := by
    have hi : Resolves (c.indexer (.proto m.proto)) :=
      hc.resolves rfl (h.implied (.methodProto m))
    simp [protoHalf, hi, resolves_narrowIndex]
  simp only [methodParts, List.forall_mem_cons]
  refine ⟨resolves_typeHalf hc (h.implied (.methodOwner m)), hp,
    resolves_stringWord hc (h.implied (.methodName m)), ?_⟩
  exact fun _ hn => (List.not_mem_nil hn).elim

theorem resolves_classPart {d : ClassDef} {annotations classData : UInt32} (hd : d.Kept classes) :
    Resolves (c.classPart d annotations classData) := by
  have hi := resolves_typeListOffset hc fun hl => .named hd (.owned (.interfaces hl))
  have hv := resolves_encodedArrayOffset hc fun hl => .named hd (.owned (.staticValues hl))
  have hself : Resolves (c.indexer (.type d.descriptor)) := hc.resolves rfl (.named hd .self)
  have hsuper : Resolves (ClassDef.indexOrNone c.indexer (d.superclass?.map .type)) := by
    cases h : d.superclass? with
    | none => exact resolves_ok
    | some s => exact hc.resolves rfl (.named hd (.superclass h))
  have hfile : Resolves (ClassDef.indexOrNone c.indexer (d.sourceFile?.map .string)) := by
    cases h : d.sourceFile? with
    | none => exact resolves_ok
    | some s => exact hc.resolves rfl (.named hd (.sourceFile h))
  rw [classPart, resolves_bind]
  refine ⟨hi, fun _ _ => ?_⟩
  rw [resolves_bind]
  refine ⟨hv, fun _ _ => resolves_inside _ (resolves_joined ?_)⟩
  simp [ClassDef.recordParts, hself, hsuper, hfile]

/-- **The records** look up only what is reached. -/
theorem resolves_recordParts {strings directories classData : List UInt32} :
    ∀ part ∈ c.recordParts strings directories classData, Resolves part := by
  simp only [recordParts, List.forall_mem_append, List.mem_map, List.mem_flatMap]
  refine ⟨⟨⟨⟨⟨?_, ?_⟩, ?_⟩, ?_⟩, ?_⟩, ?_⟩
  · rintro _ ⟨_, -, rfl⟩
    exact resolves_ok
  · rintro _ ⟨d, hd, rfl⟩
    exact resolves_stringWord hc ((hc.stored _ (stored_type.mpr hd)).implied (.descriptor d))
  · rintro part ⟨p, hp, h⟩
    exact resolves_protoParts hc (hc.stored _ (stored_proto.mpr hp)) part h
  · rintro part ⟨f, hf, h⟩
    exact resolves_fieldParts hc (hc.stored _ (stored_field.mpr hf)) part h
  · rintro part ⟨m, hm, h⟩
    exact resolves_methodParts hc (hc.stored _ (stored_method.mpr hm)) part h
  · rintro _ ⟨⟨d, annotations, data⟩, hx, rfl⟩
    exact resolves_classPart hc ((hc.kept d).mp (List.of_mem_zip hx).1)

end Records

end Catalog

/-! ## 3. The container -/

namespace Image

variable {options : Container.Options} {classes : List ClassDef}

theorem resolves_checkIds {tables : IdTables} {ids : List UInt8} :
    Resolves (checkIds tables ids) := by
  unfold checkIds
  dsimp only
  split <;> simp

theorem resolves_ofClasses (hr : ∀ d : ClassDef, d.Kept classes → ¬ d.Unresolvable) :
    Resolves (ofClasses options classes) := by
  rw [ofClasses, resolves_bind]
  refine ⟨Catalog.resolves_discover, fun c h => ?_⟩
  have hc := Catalog.serves_of_discover h
  rw [resolves_bind]
  refine ⟨IdTables.resolves_ofCatalog, fun tables _ => ?_⟩
  have hw := Catalog.resolves_writeSection hc hr tables
  split
  case h_1 cause t hs =>
    refine resolves_throw.mpr ?_
    rintro what rfl
    exact hw _ what t hs
  case h_2 placed s hs =>
    have hp := Catalog.serves_of_writeSection hc hs
    rw [resolves_bind]
    refine ⟨resolves_joined (Catalog.resolves_recordParts hp), fun ids _ => ?_⟩
    simp only [resolves_bind, resolves_checkIds, resolves_narrow32, true_and]
    intro _ _ _ _
    split <;> simp

theorem resolves_assembleWith {sign : List UInt8 → Vector UInt8 20} {sum : List UInt8 → UInt32}
    {i : Image} {o : Output} : Resolves (i.assembleWith sign sum o) := by
  have hw : ∀ (o : Output) offset data, Resolves (o.write offset data) := fun _ _ _ => by
    rw [Output.write_eq]
    split <;> simp [Output.exceeded]
  have hh : ∀ data, Resolves (i.header.write data) := fun _ => by
    rw [Header.write_eq]
    split <;> simp
  have hs : ∀ data, Resolves (Header.sealedWith sign sum data) := fun _ => by
    rw [Header.sealedWith_eq]
    split <;> simp
  simp [assembleWith, hw, hh, hs]

end Image

/-- **A container** of classes of which none is unresolvable does not fail for a reference without
an entry. -/
theorem Container.resolves_writeWith {sign : List UInt8 → Vector UInt8 20}
    {sum : List UInt8 → UInt32} {options : Container.Options} {classes : List ClassDef}
    (hr : ∀ d : ClassDef, d.Kept classes → ¬ d.Unresolvable) :
    Resolves (Container.writeWith sign sum options classes) := by
  have hi : ∀ (o : Output), Resolves (o.taken none) := fun _ => resolves_ok
  simp [writeWith, Image.resolves_ofClasses hr, Image.resolves_assembleWith, hi]

end Dalvik
