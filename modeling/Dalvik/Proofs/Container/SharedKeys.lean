/-
# What is shared is told apart

Everything that the writer keeps once for all that need it is found by its key: constants and lists
of them, annotations, their sets and the lists of those, lists of types, handlers, and references.
Were the key of one value also that of another, or of a value and the start of the next, the writer
would put one in the place of the other without a word.

`Faithful` is what excludes that, for a type; `shared_keys_faithful` says it of all of them.  The
values are those in which every length fits eight bytes (`Counted`), as it does in every value
whose key fits a buffer (`Delimited.counted_of_key`).
-/
import Dalvik.Proofs.Container.HandlerLists
import Dalvik.Proofs.Value.Key

namespace Dalvik

/-- Two keys, with anything after them, are the same exactly if the values are and what follows. -/
def Faithful (α : Type) [Keyed α] [Delimited α] : Prop :=
  ∀ (a b : α) (x y : List UInt8), Counted a → Counted b →
    (key a ++ x = key b ++ y ↔ a = b ∧ x = y)

theorem Delimited.faithful (α : Type) [Keyed α] [Delimited α] : Faithful α := by
  intro a b x y ha hb
  constructor
  · exact fun h => Delimited.delimits ha hb h
  · rintro ⟨rfl, rfl⟩
    rfl

/-- **Keys of shared items are faithful.**  Floating-point numbers are the same here if their bits
are. -/
theorem shared_keys_faithful :
    Faithful EncodedValue ∧ Faithful (List EncodedValue) ∧ Faithful EncodedAnnotation ∧
    Faithful Annotation ∧ Faithful (List Annotation) ∧ Faithful (List (List Annotation)) ∧
    Faithful (List String) ∧ Faithful HandlerList ∧
    Faithful Proto ∧ Faithful FieldRef ∧ Faithful MethodRef := by
  refine ⟨?_, ?_, ?_, ?_, ?_, ?_, ?_, ?_, ?_, ?_, ?_⟩
  all_goals exact Delimited.faithful _

/-- An annotation with one element, an array of strings. -/
def namesAnnotation (names : List String) : Annotation where
  visibility := .runtime
  content := { type := "LNames;", elements := [("value", .array (names.map .string))] }

/-- Strings that are the same one after the other are not the same in a list. -/
theorem shared_keys_faithful_names :
    let split := namesAnnotation ["ab", "c"]
    let joined := namesAnnotation ["a", "bc"]
    Counted split ∧ Counted joined ∧ key split ≠ key joined := by
  intro split joined
  have hsplit : Counted split := counted_of_key (by decide +kernel)
  have hjoined : Counted joined := counted_of_key (by decide +kernel)
  refine ⟨hsplit, hjoined, fun h => ?_⟩
  have hsame := (shared_keys_faithful.2.2.2.1 split joined [] [] hsplit hjoined).mp (by rw [h])
  have hnames := hsame.1
  simp [split, joined, namesAnnotation] at hnames

end Dalvik
