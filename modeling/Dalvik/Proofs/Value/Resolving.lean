/-
# Values look up what they name

The parts of a value are bytes, counts and indices, and the indices are those of the references that
the value uses, at any depth.  So writing a value fails for a reference without an entry only by a
reference that it uses, and a value that is written has, among its parts, the parts of every value
inside it.
-/
import Dalvik.Proofs.Resolving
import Dalvik.Proofs.Value.Inside
import Dalvik.Value.Encode

namespace Dalvik

namespace EncodedValue

/-- The references whose indices a value is written with, without the values inside it. -/
inductive Uses : EncodedValue → Reference → Prop
  | string (s : String) : Uses (.string s) (.string s)
  | type (d : String) : Uses (.type d) (.type d)
  | field (f : FieldRef) : Uses (.field f) (.field f)
  | enum (f : FieldRef) : Uses (.enum f) (.field f)
  | method (m : MethodRef) : Uses (.method m) (.method m)
  | methodType (p : Proto) : Uses (.methodType p) (.proto p)
  | methodHandle (i : UInt32) : Uses (.methodHandle i) (.methodHandle i)
  | annotationType (a : EncodedAnnotation) : Uses (.annotationValue a) (.type a.type)
  | elementName {a : EncodedAnnotation} {name : String} {v : EncodedValue}
    (h : (name, v) ∈ a.elements) : Uses (.annotationValue a) (.string name)

variable {ix : Indexer}

/-! ## 1. Parts that fail -/

@[simp] theorem resolves_withPayload {t : ValueType} {payload : List UInt8} :
    Resolves (withPayload t payload) :=
  resolves_ok

@[simp] theorem resolves_indexPart {t : ValueType} {r : Reference} :
    Resolves (indexPart ix t r) ↔ Resolves (ix r) := by
  simp [indexPart]

mutual

/-- **The parts of a value** fail for a reference without an entry only by one that is used. -/
theorem resolves_parts : ∀ v : EncodedValue,
    (∀ w r, Inside w v → Uses w r → Resolves (ix r)) → ∀ p ∈ v.parts ix, Resolves p
  | .array values, h => by
    simp only [parts, List.forall_mem_cons]
    exact ⟨resolves_ok, resolves_count, resolves_partsOfAll values fun v hv w r hw =>
      h w r (.array hv hw)⟩
  | .annotationValue ⟨descriptor, elements⟩, h => by
    simp only [parts, EncodedAnnotation.parts, List.forall_mem_cons, resolves_uleb128]
    refine ⟨resolves_ok, h _ _ .self (.annotationType _), resolves_count, ?_⟩
    refine resolves_partsOfElements elements (fun e he w r hw => h w r (.element he hw)) ?_
    exact fun e he => h _ _ .self (.elementName (v := e.2) he)
  | .byte _, _ | .short _, _ | .char _, _ | .int _, _ | .long _, _ | .float _, _ | .double _, _
  | .null, _ | .boolean _, _ => by
    simp only [parts, List.forall_mem_singleton]
    exact resolves_ok
  | .methodType _, h | .methodHandle _, h | .string _, h | .type _, h | .field _, h
  | .method _, h | .enum _, h => by
    simp only [parts, List.forall_mem_singleton, resolves_indexPart]
    exact h _ _ .self (by constructor)
termination_by structural v => v

theorem resolves_partsOfAll : ∀ values : List EncodedValue,
    (∀ v ∈ values, ∀ w r, Inside w v → Uses w r → Resolves (ix r)) →
      ∀ p ∈ partsOfAll ix values, Resolves p
  | [], _ => by simp [partsOfAll]
  | v :: rest, h => by
    simp only [partsOfAll, List.forall_mem_append]
    exact ⟨resolves_parts v (h v (List.mem_cons_self ..)),
      resolves_partsOfAll rest fun u hu => h u (List.mem_cons_of_mem _ hu)⟩
termination_by structural values => values

theorem resolves_partsOfElements : ∀ elements : List (String × EncodedValue),
    (∀ e ∈ elements, ∀ w r, Inside w e.2 → Uses w r → Resolves (ix r)) →
      (∀ e ∈ elements, Resolves (ix (.string e.1))) →
        ∀ p ∈ partsOfElements ix elements, Resolves p
  | [], _, _ => by simp [partsOfElements]
  | (name, v) :: rest, h, hn => by
    simp only [partsOfElements, List.forall_mem_cons, List.forall_mem_append, resolves_uleb128]
    exact ⟨hn _ (List.mem_cons_self ..), resolves_parts v (h _ (List.mem_cons_self ..)),
      resolves_partsOfElements rest (fun e he => h e (List.mem_cons_of_mem _ he))
        fun e he => hn e (List.mem_cons_of_mem _ he)⟩
termination_by structural elements => elements

end

/-! ## 2. Parts of the values inside -/

theorem parts_subset_partsOfAll {v : EncodedValue} {values : List EncodedValue}
    (h : v ∈ values) : v.parts ix ⊆ partsOfAll ix values := by
  induction values with
  | nil => exact (List.not_mem_nil h).elim
  | cons w rest ih =>
    rw [partsOfAll]
    rcases List.mem_cons.mp h with rfl | h
    · exact List.subset_append_left ..
    · exact List.subset_append_of_subset_right _ (ih h)

theorem parts_subset_partsOfElements {e : String × EncodedValue}
    {elements : List (String × EncodedValue)} (h : e ∈ elements) :
    e.2.parts ix ⊆ partsOfElements ix elements := by
  induction elements with
  | nil => exact (List.not_mem_nil h).elim
  | cons w rest ih =>
    rw [partsOfElements]
    rcases List.mem_cons.mp h with rfl | h
    · exact fun _ hx => List.mem_cons_of_mem _ (List.mem_append_left _ hx)
    · exact fun _ hx => List.mem_cons_of_mem _ (List.mem_append_right _ (ih h hx))

/-- The parts of a value have those of every value inside it. -/
theorem Inside.parts_subset {w v : EncodedValue} (h : w.Inside v) : w.parts ix ⊆ v.parts ix := by
  induction h with
  | self => exact List.Subset.refl _
  | array hw _ ih =>
    intro p hp
    rw [parts]
    exact List.mem_cons_of_mem _ (List.mem_cons_of_mem _ (parts_subset_partsOfAll hw (ih hp)))
  | @element w name a hw _ ih =>
    obtain ⟨descriptor, elements⟩ := a
    intro p hp
    rw [parts, EncodedAnnotation.parts]
    exact List.mem_cons_of_mem _ (List.mem_cons_of_mem _ (List.mem_cons_of_mem _
      (parts_subset_partsOfElements hw (ih hp))))

/-- A value with a method handle inside it is not written by an indexer that has none. -/
theorem error_of_methodHandle {i : UInt32} {v : EncodedValue} {e : Error}
    (h : (EncodedValue.methodHandle i).Inside v) (hix : ix (.methodHandle i) = .error e) :
    .error e ∈ v.parts ix := by
  refine h.parts_subset ?_
  rw [parts, indexPart, hix]
  exact List.mem_cons_self ..

end EncodedValue

/-! ## 3. Annotations -/

namespace Annotation

variable {ix : Indexer} {a : Annotation}

/-- An annotation item has its visibility in place of the first byte of the value. -/
theorem mem_parts {p : Part} : p ∈ a.parts ix ↔
    p = .ok [a.visibility.code] ∨ p ∈ a.content.parts ix :=
  List.mem_cons

theorem resolves_parts
    (h : ∀ (w : EncodedValue) r, w.Inside (.annotationValue a.content) → w.Uses r →
      Resolves (ix r)) : ∀ p ∈ a.parts ix, Resolves p := by
  intro p hp
  rcases mem_parts.mp hp with rfl | hp
  · exact resolves_ok
  · refine EncodedValue.resolves_parts (.annotationValue a.content) h p ?_
    rw [EncodedValue.parts]
    exact List.mem_cons_of_mem _ hp

theorem error_of_methodHandle {i : UInt32} {e : Error}
    (h : (EncodedValue.methodHandle i).Inside (.annotationValue a.content))
    (hix : ix (.methodHandle i) = .error e) : .error e ∈ a.parts ix := by
  have hm := EncodedValue.error_of_methodHandle h hix
  rw [EncodedValue.parts] at hm
  rcases List.mem_cons.mp hm with hm | hm
  · cases hm
  · exact mem_parts.mpr (.inr hm)

end Annotation

end Dalvik
