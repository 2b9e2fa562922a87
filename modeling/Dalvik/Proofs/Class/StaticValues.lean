/-
# What stands in the array of initial values

The array of a class has every initial value of a static field, and beside these only zeros, for
fields that come before the last one with a value.  Its order is that of the names and the types of
the fields, so it does not matter in which order a class declares them.
-/
import Mathlib.Data.List.DropRight
import Dalvik.Class.Basic
import Dalvik.Proofs.Sorting
import Dalvik.Proofs.Text.Utf16

namespace Dalvik

namespace ClassDef

/-- The value is the initial value of a static field. -/
def Initial (d : ClassDef) (v : EncodedValue) : Prop :=
  ∃ f ∈ d.fields, f.isStatic = true ∧ f.value? = some v

theorem mem_sortedStaticFields {d : ClassDef} {f : Field} :
    f ∈ d.sortedStaticFields ↔ f ∈ d.fields ∧ f.isStatic = true := by
  rw [sortedStaticFields, (List.mergeSort_perm ..).mem_iff, List.mem_filter]

/-- **The extent of the array.**  It has a value for each field up to the last one with a value, and
what is cut off has none. -/
theorem staticValues_extent (d : ClassDef) : ∃ upTo rest, d.sortedStaticFields = upTo ++ rest ∧
    d.staticValues = upTo.map (fun f => f.value?.getD (.zero f.type)) ∧
      (∀ f ∈ rest, f.value? = none) ∧ ∀ f ∈ upTo.getLast?, f.value?.isSome = true := by
  have hsplit := (@List.rdropWhile_append_rtakeWhile _ (fun f => f.value?.isNone)
    d.sortedStaticFields).symm
  refine ⟨_, _, hsplit, rfl, fun f hf => ?_, fun f hf => ?_⟩
  · exact Option.isNone_iff_eq_none.mp (@List.mem_rtakeWhile_imp _ _ _ f hf)
  · obtain ⟨hne, hlast⟩ := List.mem_getLast?_eq_getLast hf
    have hnot := List.rdropWhile_last_not (fun f : Field => f.value?.isNone) _ hne
    rw [← hlast, Option.isNone_iff_eq_none] at hnot
    exact Option.isSome_iff_ne_none.mpr hnot

theorem Initial.mem_staticValues {d : ClassDef} {v : EncodedValue} (h : d.Initial v) :
    v ∈ d.staticValues := by
  obtain ⟨f, hf, hs, hv⟩ := h
  obtain ⟨upTo, rest, hsplit, hvalues, hrest, -⟩ := d.staticValues_extent
  have hmem := mem_sortedStaticFields.mpr ⟨hf, hs⟩
  rw [hsplit, List.mem_append] at hmem
  rw [hvalues]
  rcases hmem with hf | hf
  · exact List.mem_map.mpr ⟨f, hf, by rw [hv]; rfl⟩
  · rw [hrest f hf] at hv
    cases hv

/-- **Initial values** are given or zeros. -/
theorem initial_or_zero {d : ClassDef} {v : EncodedValue} (h : v ∈ d.staticValues) :
    d.Initial v ∨ ∃ descriptor, v = .zero descriptor := by
  obtain ⟨upTo, rest, hsplit, hvalues, -⟩ := d.staticValues_extent
  rw [hvalues] at h
  obtain ⟨f, hf, rfl⟩ := List.mem_map.mp h
  obtain ⟨hf, hs⟩ := mem_sortedStaticFields.mp (hsplit ▸ List.mem_append_left rest hf)
  cases hv : f.value? with
  | none => exact .inr ⟨f.type, rfl⟩
  | some v => exact .inl ⟨f, hf, hs, hv⟩

/-- **The array is empty** if no static field has a value, and only then. -/
theorem staticValues_eq_nil {d : ClassDef} :
    d.staticValues = [] ↔ ∀ f ∈ d.fields, f.isStatic = true → f.value? = none := by
  constructor
  · intro h f hf hs
    cases hv : f.value? with
    | none => rfl
    | some v =>
      have hmem : v ∈ d.staticValues := Initial.mem_staticValues ⟨f, hf, hs, hv⟩
      rw [h] at hmem
      exact absurd hmem List.not_mem_nil
  · intro h
    obtain ⟨upTo, rest, hsplit, hvalues, -, hlast⟩ := d.staticValues_extent
    rw [hvalues, List.map_eq_nil_iff, ← List.getLast?_eq_none_iff]
    refine Option.eq_none_iff_forall_not_mem.mpr fun f hf => ?_
    have hmem : f ∈ d.sortedStaticFields :=
      hsplit ▸ List.mem_append_left rest (List.mem_of_getLast? hf)
    obtain ⟨hf', hs⟩ := mem_sortedStaticFields.mp hmem
    have hsome := hlast f hf
    rw [h f hf' hs] at hsome
    cases hsome

/-! ## Order -/

/-- The order of names with types: by name, then by type. -/
def compareNamed : String × String → String × String → Ordering :=
  compareLex (fun x y => Text.compareUnits x.1 y.1) fun x y => Text.compareUnits x.2 y.2

instance : Std.TransCmp compareNamed :=
  have := transCmp_on Text.compareUnits (Prod.fst : String × String → String)
  have := transCmp_on Text.compareUnits (Prod.snd : String × String → String)
  inferInstanceAs (Std.TransCmp (compareLex _ _))

instance : Std.LawfulEqCmp compareNamed where
  eq_of_compare {x y} h := by
    rw [compareNamed, compareLex, Ordering.then_eq_eq] at h
    exact Prod.ext (Std.LawfulEqCmp.eq_of_compare h.1) (Std.LawfulEqCmp.eq_of_compare h.2)

theorem pairwise_sortedStaticFields {d : ClassDef}
    (hn : (d.fields.map fun f => (f.name, f.type)).Nodup) : d.sortedStaticFields.Pairwise
      fun f g => compareNamed (f.name, f.type) (g.name, g.type) = .lt :=
  pairwise_mergeSort_lt (hn.sublist (List.filter_sublist.map _))

/-- **Declarations in another order** leave the array as it is. -/
theorem staticValues_eq_of_perm {d d' : ClassDef} (hp : d.fields.Perm d'.fields)
    (hn : (d.fields.map fun f => (f.name, f.type)).Nodup) : d.staticValues = d'.staticValues := by
  have hn' : (d'.fields.map fun f => (f.name, f.type)).Nodup := (hp.map _).nodup_iff.mp hn
  have hsame : d.sortedStaticFields.Perm d'.sortedStaticFields :=
    (List.mergeSort_perm ..).trans ((hp.filter _).trans (List.mergeSort_perm ..).symm)
  have hsorted : d.sortedStaticFields = d'.sortedStaticFields :=
    eq_of_pairwise_lt (pairwise_sortedStaticFields hn) (pairwise_sortedStaticFields hn') hsame
  rw [staticValues, staticValues, hsorted]

end ClassDef

end Dalvik
