/-
# Values at any depth

A value is inside an array or an annotation that has it, and inside whatever that is inside of.
`mem_subvalues` says that `subvalues` lists exactly what is inside a value.
-/
import Dalvik.Value.Basic

namespace Dalvik

namespace EncodedValue

/-- The first value is the second, or at some depth inside it. -/
inductive Inside : EncodedValue → EncodedValue → Prop
  | self {value : EncodedValue} : Inside value value
  | array {v w : EncodedValue} {values : List EncodedValue} (hw : w ∈ values) (h : Inside v w) :
    Inside v (.array values)
  | element {v w : EncodedValue} {name : String} {a : EncodedAnnotation}
    (hw : (name, w) ∈ a.elements) (h : Inside v w) : Inside v (.annotationValue a)

/-! ## 1. What is listed -/

theorem mem_subvalues_self (value : EncodedValue) : value ∈ value.subvalues := by
  cases value <;> simp [subvalues]

theorem mem_subvaluesOfAll {v : EncodedValue} {values : List EncodedValue} :
    v ∈ subvaluesOfAll values ↔ ∃ w ∈ values, v ∈ w.subvalues := by
  induction values with
  | nil => simp [subvaluesOfAll]
  | cons w rest ih =>
    rw [subvaluesOfAll, List.mem_append, ih]
    simp

theorem mem_subvaluesOfElements {v : EncodedValue} {elements : List (String × EncodedValue)} :
    v ∈ subvaluesOfElements elements ↔ ∃ e ∈ elements, v ∈ e.2.subvalues := by
  induction elements with
  | nil => simp [subvaluesOfElements]
  | cons e rest ih =>
    rw [subvaluesOfElements, List.mem_append, ih]
    simp

theorem Inside.mem_subvalues {v w : EncodedValue} (h : v.Inside w) : v ∈ w.subvalues := by
  induction h with
  | self => exact mem_subvalues_self _
  | array hw _ ih =>
    rw [subvalues]
    exact List.mem_cons_of_mem _ (mem_subvaluesOfAll.mpr ⟨_, hw, ih⟩)
  | @element w name a hw _ ih =>
    obtain ⟨descriptor, elements⟩ := a
    rw [subvalues, EncodedAnnotation.subvalues]
    exact List.mem_cons_of_mem _ (mem_subvaluesOfElements.mpr ⟨_, hw, ih⟩)

/-! ## 2. Nothing else is listed -/

mutual

theorem inside_of_mem {v : EncodedValue} : ∀ w : EncodedValue, v ∈ w.subvalues → v.Inside w
  | .array values, h => by
    rw [subvalues] at h
    rcases List.mem_cons.mp h with rfl | h
    · exact .self
    · obtain ⟨w, hw, hi⟩ := inside_of_mem_all values h
      exact .array hw hi
  | .annotationValue ⟨descriptor, elements⟩, h => by
    rw [subvalues, EncodedAnnotation.subvalues] at h
    rcases List.mem_cons.mp h with rfl | h
    · exact .self
    · obtain ⟨e, he, hi⟩ := inside_of_mem_elements elements h
      exact .element he hi
  | .byte _, h | .short _, h | .char _, h | .int _, h | .long _, h | .float _, h | .double _, h
  | .methodType _, h | .methodHandle _, h | .string _, h | .type _, h | .field _, h
  | .method _, h | .enum _, h | .null, h | .boolean _, h => by
    rw [List.mem_singleton.mp h]
    exact .self
termination_by structural w => w

theorem inside_of_mem_all {v : EncodedValue} : ∀ values : List EncodedValue,
    v ∈ subvaluesOfAll values → ∃ w ∈ values, v.Inside w
  | [], h => (List.not_mem_nil h).elim
  | w :: rest, h => by
    rcases List.mem_append.mp h with h | h
    · exact ⟨w, List.mem_cons_self .., inside_of_mem w h⟩
    · obtain ⟨w', hw, hi⟩ := inside_of_mem_all rest h
      exact ⟨w', List.mem_cons_of_mem _ hw, hi⟩
termination_by structural values => values

theorem inside_of_mem_elements {v : EncodedValue} : ∀ elements : List (String × EncodedValue),
    v ∈ subvaluesOfElements elements → ∃ e ∈ elements, v.Inside e.2
  | [], h => (List.not_mem_nil h).elim
  | (name, w) :: rest, h => by
    rcases List.mem_append.mp h with h | h
    · exact ⟨(name, w), List.mem_cons_self .., inside_of_mem w h⟩
    · obtain ⟨e, he, hi⟩ := inside_of_mem_elements rest h
      exact ⟨e, List.mem_cons_of_mem _ he, hi⟩
termination_by structural elements => elements

end

/-- **Values inside a value** are those that `subvalues` lists. -/
theorem mem_subvalues {v w : EncodedValue} : v ∈ w.subvalues ↔ v.Inside w :=
  ⟨inside_of_mem w, Inside.mem_subvalues⟩

end EncodedValue

end Dalvik
