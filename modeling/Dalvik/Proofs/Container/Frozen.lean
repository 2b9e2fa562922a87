/-
# A frozen catalog stays as it is

Adding a thing adds what it names as well, and passes over a thing that is there together with what
it names.  In a catalog that discovery has frozen neither leaves anything half done: the first thing
that is missing is refused before anything has changed, and what is there is there with all that it
names, so that nothing that is passed over is missing.

Main statement: `additions_change_nothing`.
-/
import Dalvik.Proofs.Container.Discovery
import Dalvik.Proofs.Sorting

namespace Dalvik

/-! ## 1. Refusals -/

theorem SharedItems.intern_of_frozen {α : Type} [Keyed α] {t : SharedItems α} {a : α}
    (h : ¬ t.Has a) (hf : t.frozen = true) : t.intern a = .error (.frozenPool t.name) := by
  simp [intern, index?_of_not_has h, hf]

namespace Catalog

/-- The name of the table of a thing. -/
def tableName (c : Catalog) : Entity → String
  | .string _ => c.strings.name
  | .type _ => c.types.name
  | .proto _ => c.protos.name
  | .field _ => c.fields.name
  | .method _ => c.methods.name
  | .typeList _ => c.typeLists.name
  | .encodedArray _ => c.encodedArrays.name
  | .annotationItem _ => c.annotations.name
  | .annotationSet _ => c.annotationSets.name
  | .setList _ => c.setLists.name

/-- A new thing is refused by a frozen table. -/
theorem insert_of_frozen {c : Catalog} {e : Entity} (hc : c.InStep) (h : ¬ c.Holds e)
    (hf : c.isFrozen e = true) : c.insert e = .error (.frozenPool (c.tableName e)) := by
  have hs : ¬ c.Stored e := fun hs => h hs.holds
  cases e
  case string s =>
    rw [insert, hc.strings.add_of_frozen (fun hm => hs (stored_string.mpr hm)) hf]
    rfl
  case type d =>
    rw [insert, hc.types.add_of_frozen (fun hm => hs (stored_type.mpr hm)) hf]
    rfl
  case proto p =>
    rw [insert, hc.protos.add_of_frozen (fun hm => hs (stored_proto.mpr hm)) hf]
    rfl
  case field f =>
    rw [insert, hc.fields.add_of_frozen (fun hm => hs (stored_field.mpr hm)) hf]
    rfl
  case method m =>
    rw [insert, hc.methods.add_of_frozen (fun hm => hs (stored_method.mpr hm)) hf]
    rfl
  case typeList l =>
    rw [insert, SharedItems.intern_of_frozen (fun ht => h (holds_typeList.mpr ht)) hf]
    rfl
  case encodedArray l =>
    rw [insert, SharedItems.intern_of_frozen (fun ht => h (holds_encodedArray.mpr ht)) hf]
    rfl
  case annotationItem a =>
    rw [insert, SharedItems.intern_of_frozen (fun ht => h (holds_annotationItem.mpr ht)) hf]
    rfl
  case annotationSet s =>
    rw [insert, SharedItems.intern_of_frozen (fun ht => h (holds_annotationSet.mpr ht)) hf]
    rfl
  case setList l =>
    rw [insert, SharedItems.intern_of_frozen (fun ht => h (holds_setList.mpr ht)) hf]
    rfl

open Entity

variable {options : Container.Options} {classes : List ClassDef} {c : Catalog}

/-! ## 2. What discovery leaves -/

theorem isFrozen_of_discover (h : discover options classes = .ok c) (e : Entity) :
    c.isFrozen e = true := by
  obtain ⟨-, c', -, hfreeze⟩ := discover_eq_ok h
  exact isFrozen_freeze hfreeze e

theorem listing_complete : Complete (listing options classes) := by
  refine complete_ofEmptySet.append fun e he x hx => ?_
  obtain ⟨d, hd, he⟩ := List.mem_flatMap.mp he
  exact List.mem_flatMap.mpr ⟨d, hd, ofClass_complete d e he x hx⟩

/-- What a discovered catalog has, it has with all that it names. -/
theorem closed_of_discover (h : discover options classes = .ok c) (n : Nat) : c.ClosedTo n := by
  obtain ⟨-, c', hc, hfreeze⟩ := discover_eq_ok h
  have hclosed := (closedTo_new n (ClassDef.inOrder classes)).insertAll listing_complete hc
  refine ⟨inStep_of_discover h, fun e he hst x hx => ?_⟩
  exact (holds_freeze hfreeze).mpr (hclosed.needs e he ((stored_freeze hfreeze).mp hst) x hx)

end Catalog

namespace Collector

open Entity

variable {c : Catalog}

/-- A frozen catalog holds what is to be added, or refuses the first thing that it does not hold. -/
theorem insertAll_frozen (hc : c.InStep) (hf : ∀ e, c.isFrozen e = true) (entities : List Entity) :
    (∀ e ∈ entities, c.Holds e) ∧ insertAll entities c = .ok () c ∨
      ∃ before e rest, entities = before ++ e :: rest ∧ (∀ x ∈ before, c.Holds x) ∧ ¬ c.Holds e ∧
        insertAll entities c = .error (.frozenPool (c.tableName e)) c := by
  induction entities with
  | nil => exact .inl ⟨by simp, rfl⟩
  | cons e rest ih =>
    rw [insertAll_cons, bind_run, insert_eq]
    by_cases he : c.Holds e
    · rw [Catalog.insert_of_holds hc he]
      rcases ih with ⟨hall, hrun⟩ | ⟨before, x, after, rfl, hbefore, hx, hrun⟩
      · exact .inl ⟨List.forall_mem_cons.mpr ⟨he, hall⟩, hrun⟩
      · exact .inr ⟨e :: before, x, after, rfl, List.forall_mem_cons.mpr ⟨he, hbefore⟩, hx, hrun⟩
    · rw [Catalog.insert_of_frozen hc he (hf e)]
      exact .inr ⟨[], e, rest, rfl, by simp, he, rfl⟩

/-! ## 3. Additions -/

/-- A call that adds to a catalog. -/
inductive Addition where
  | string (s : String)
  | type (descriptor : String)
  | typeList (descriptors : List String)
  | proto (p : Proto)
  | field (f : FieldRef)
  | method (m : MethodRef)
  | reference (r : Reference)
  | value (v : EncodedValue)
  | annotation (a : Annotation)
  | annotationSet (annotations : List Annotation)

namespace Addition

/-- The call. -/
def perform : Addition → Collector Unit
  | string s => insert (.string s)
  | type descriptor => addType descriptor
  | typeList descriptors => addTypeList descriptors
  | proto p => addProto p
  | field f => addField f
  | method m => addMethod m
  | reference r => addReference r
  | value v => addValue v
  | annotation a => addAnnotation a
  | annotationSet annotations => do
    let _ ← addSet annotations

/-- Everything that the call would have to add to a catalog that has nothing. -/
def entities : Addition → List Entity
  | string s => [.string s]
  | type descriptor => ofType descriptor
  | typeList descriptors => ofTypeList descriptors
  | proto p => ofProto p
  | field f => ofField f
  | method m => ofMethod m
  | reference r => ofReference r
  | value v => ofValue v
  | annotation a => ofAnnotation a
  | annotationSet annotations => ofSet annotations

/-- The set that is answered does not matter to the catalog. -/
theorem perform_annotationSet (annotations : List Annotation) :
    (annotationSet annotations).perform = addAnnotations annotations := by
  funext c
  have hrun : (annotationSet annotations).perform c =
      EStateM.bind (EStateM.bind (addAnnotations annotations)
        fun _ => pure (AnnotationSet.sorted annotations)) (fun _ => pure ()) c := rfl
  rw [hrun, EStateM.bind, EStateM.bind]
  cases addAnnotations annotations c <;> rfl

theorem collects (call : Addition) : Collects 3 call.perform call.entities := by
  cases call with
  | string s => exact .one (e := .string s) rfl
  | type descriptor => exact addType_collects (by omega) descriptor
  | typeList descriptors => exact addTypeList_collects (by omega) descriptors
  | proto p => exact addProto_collects (by omega) p
  | field f => exact addField_collects (by omega) f
  | method m => exact addMethod_collects (by omega) m
  | reference r => exact addReference_collects (by omega) r
  | value v => exact addValue_collects (by omega) v
  | annotation a => exact addAnnotation_collects (by omega) a
  | annotationSet annotations =>
    rw [perform_annotationSet]
    exact addAnnotations_collects (by omega) annotations

/-- One call after the other, whatever the answers. -/
def performEach (calls : List Addition) : Collector (List (Except Error Unit)) :=
  calls.mapM fun call => answered call.perform

end Addition

/-- What a catalog has to do with the answer to a call: it holds all that would have to be added, or
the first thing that it does not hold has been refused. -/
def Settles (c : Catalog) (call : Addition) (answer : Except Error Unit) : Prop :=
  (answer = .ok () ↔ ∀ e ∈ call.entities, c.Holds e) ∧
    ∀ cause, answer = .error cause → ∃ before e rest, call.entities = before ++ e :: rest ∧
      (∀ x ∈ before, c.Holds x) ∧ ¬ c.Holds e ∧ cause = .frozenPool (c.tableName e)

theorem perform_frozen (hf : ∀ e, c.isFrozen e = true) (hc : c.ClosedTo 3) (call : Addition) :
    ∃ answer, answered call.perform c = .ok answer c ∧ Settles c call answer := by
  have heq := call.collects.eq c hc
  rcases insertAll_frozen hc.inStep hf call.entities with
    ⟨hall, hrun⟩ | ⟨before, e, rest, hsplit, hbefore, he, hrun⟩
  · refine ⟨.ok (), answered_of_ok (heq.trans hrun), iff_of_true rfl hall, ?_⟩
    intro cause h
    cases h
  · refine ⟨_, answered_of_error (heq.trans hrun), iff_of_false (by simp) ?_, ?_⟩
    · intro hall
      exact he (hall e (by simp [hsplit]))
    · rintro _ h
      cases h
      exact ⟨before, e, rest, hsplit, hbefore, he, rfl⟩

/-- **A frozen catalog stays as it is**, whatever is to be added to it: no call changes it, a call
succeeds exactly if everything is there that it would have to add, and otherwise the table of the
first thing that is missing refuses it. -/
theorem additions_change_nothing {options : Container.Options} {classes : List ClassDef}
    (h : Catalog.discover options classes = .ok c) (calls : List Addition) :
    ∃ answers, Addition.performEach calls c = .ok answers c ∧
      List.Forall₂ (Settles c) calls answers := by
  induction calls with
  | nil => exact ⟨[], rfl, .nil⟩
  | cons call rest ih =>
    obtain ⟨answers, hrest, hsettles⟩ := ih
    obtain ⟨answer, hcall, hs⟩ := perform_frozen (Catalog.isFrozen_of_discover h)
      (Catalog.closed_of_discover h 3) call
    refine ⟨answer :: answers, ?_, .cons hs hsettles⟩
    rw [Addition.performEach, List.mapM_cons]
    exact stateBind_eq_ok.mpr ⟨answer, c, hcall, stateBind_eq_ok.mpr ⟨answers, c, hrest, rfl⟩⟩

/-- A class that implements an interface. -/
def implementorClass : ClassDef where
  descriptor := "LMain;"
  superclass? := some "LBase;"
  interfaces := ["LRun;"]

/-- The list of the interface is there, and no prototype is. -/
theorem additions_change_nothing_implementorClass :
    let calls : List Addition := [.typeList ["LRun;"], .proto ⟨"LMain;", ["LRun;"]⟩, .type "LRun;"]
    ∃ c, Catalog.discover {} [implementorClass] = .ok c ∧
      ∃ answers, Addition.performEach calls c = .ok answers c ∧
        List.Forall₂ (Settles c) calls answers := by
  intro calls
  have hok : (Catalog.discover {} [implementorClass]).isOk = true := by
    simp only [Catalog.discover, Catalog.freeze, Catalog.freezeNames, Catalog.freezeProtos,
      Catalog.freezeMembers, Pool.freezeBy, Pool.freezeWith, mergeSort_eq_sortUpTo]
    decide +kernel
  obtain ⟨c, h⟩ := exists_of_isOk hok
  exact ⟨c, h, additions_change_nothing h calls⟩

end Collector

end Dalvik
