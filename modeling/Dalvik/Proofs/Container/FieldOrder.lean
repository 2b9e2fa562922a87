/-
# Initial values line up with fields

The static fields of a class are put in order twice: by their names and types, for the array of
initial values, and by their indices, for the class data.  The two orders are one.  An index is a
place in a pool whose order goes by owner, name and type, the names and types by their own places;
and the owner is the same for all fields of a class.  So two indices compare as the names and types
of the fields do, whatever characters these have.

* `Catalog.compare_place`: places of fields of one class compare as their names and types;
* `staticFieldsByIndex_eq`: sorted by index, the static fields are in the order of the array;
* `Kept.group_staticFields`: so they are in the class data;
* `static_values_line_up`: the statement.
-/
import Dalvik.Proofs.Container.IdReading
import Dalvik.Proofs.Container.MemberGroups

namespace Dalvik

namespace ClassDef

variable {d : ClassDef}

/-! ## 1. Sorting by index -/

/-- The static fields in the order of their indices. -/
def staticFieldsByIndex (ix : Indexer) (d : ClassDef) : Except Error (List Field) := do
  let indexed ← (d.fields.filter (·.isStatic)).mapM fun f => do
    return (← ix (.field (d.fieldRef f)), f)
  return (indexed.mergeSort fun a b => a.1 ≤ b.1).map (·.2)

end ClassDef

/-! ## 2. Places in the pools -/

namespace Catalog

variable {options : Container.Options} {classes : List ClassDef} {c : Catalog} {d : ClassDef}
  {f g : Field}

theorem compare_rank_string (hs : c.InStep) (hc : c.InFormatOrder) {a b : String}
    (ha : c.Knows (.string a)) (hb : c.Knows (.string b)) :
    compare (c.rank (.string a)) (c.rank (.string b)) = Text.compareUnits a b :=
  hs.strings.compare_index? hc.strings Std.LawfulEqCmp.eq_of_compare (place?_of_knows ha)
    (place?_of_knows hb)

theorem compare_rank_type (hs : c.InStep) (hc : c.InFormatOrder) {a b : String}
    (ha : c.Knows (.type a)) (hb : c.Knows (.type b)) :
    compare (c.rank (.type a)) (c.rank (.type b)) = Text.compareUnits a b :=
  hs.types.compare_index? hc.types Std.LawfulEqCmp.eq_of_compare (place?_of_knows ha)
    (place?_of_knows hb)

/-- The ranks of two fields of a class differ only by what the two are called. -/
theorem compare_fieldRank (hs : c.InStep) (hc : c.InFormatOrder)
    (hf : d.fieldRef f ∈ c.fields.items)
    (hg : d.fieldRef g ∈ c.fields.items) :
    compare (c.fieldRank (d.fieldRef f)) (c.fieldRank (d.fieldRef g)) =
      ClassDef.compareNamed (f.name, f.type) (g.name, g.type) := by
  have hkf := hc.knowsFields _ hf
  have hkg := hc.knowsFields _ hg
  simp only [fieldNames, ClassDef.fieldRef, List.forall_mem_cons] at hkf hkg
  have hname := compare_rank_string hs hc hkf.2.1 hkg.2.1
  have htype := compare_rank_type hs hc hkf.2.2.1 hkg.2.2.1
  have howner : compare (c.rank (.type d.descriptor)) (c.rank (.type d.descriptor)) = .eq :=
    Std.ReflCmp.compare_self
  simp only [fieldRank, ClassDef.fieldRef, List.compare_cons_cons, howner, hname, htype]
  simp [ClassDef.compareNamed, compareLex]

/-- **Places of fields of a class compare as their names and types do.** -/
theorem compare_place (hs : c.InStep) (hc : c.InFormatOrder) {i j : Nat}
    (hi : c.fields.index? (d.fieldRef f) = some i) (hj : c.fields.index? (d.fieldRef g) = some j) :
    compare i j = ClassDef.compareNamed (f.name, f.type) (g.name, g.type) := by
  have hf : d.fieldRef f ∈ c.fields.items :=
    hs.fields.index?_isSome.mp (Option.isSome_iff_exists.mpr ⟨i, hi⟩)
  have hg : d.fieldRef g ∈ c.fields.items :=
    hs.fields.index?_isSome.mp (Option.isSome_iff_exists.mpr ⟨j, hj⟩)
  have := transCmp_on compare c.fieldRank
  refine (hs.fields.compare_index? hc.fields (fun h => ?_) hi hj).trans
    (compare_fieldRank hs hc hf hg)
  exact field_of_fieldRank hs (hc.knowsFields _ hf) (hc.knowsFields _ hg)
    (Std.LawfulEqCmp.eq_of_compare h)

/-- **Indices of fields of a class compare as their names and types do.** -/
theorem index_le_iff (h : discover options classes = .ok c) {i j : UInt32}
    (hi : c.indexer (.field (d.fieldRef f)) = .ok i)
    (hj : c.indexer (.field (d.fieldRef g)) = .ok j) : i ≤ j ↔ ClassDef.fieldLE f g = true := by
  have hs := inStep_of_discover h
  have hplaces := compare_place hs (inFormatOrder_of_discover h)
    (place_of_index hs.fields (fun _ => rfl) hi) (place_of_index hs.fields (fun _ => rfl) hj)
  have hle : ClassDef.fieldLE f g = (compare i.toNat j.toNat).isLE := by
    rw [hplaces]
    rfl
  rw [hle, Nat.isLE_compare, UInt32.le_iff_toNat_le]

end Catalog

/-! ## 3. One order -/

namespace ClassDef

variable {options : Container.Options} {classes : List ClassDef} {c : Catalog} {d : ClassDef}

/-- **Sorting by index is sorting by name and type.** -/
theorem staticFieldsByIndex_eq (h : Catalog.discover options classes = .ok c) {fields : List Field}
    (hf : d.staticFieldsByIndex c.indexer = .ok fields) : fields = d.sortedStaticFields := by
  obtain ⟨indexed, hindexed, hf⟩ := bind_eq_ok.mp hf
  obtain rfl := pure_eq_ok.mp hf
  have hentries : List.Forall₂ (fun f (x : UInt32 × Field) =>
      c.indexer (.field (d.fieldRef f)) = .ok x.1 ∧ x.2 = f) (d.fields.filter (·.isStatic))
        indexed := by
    refine (mapM_eq_ok.mp hindexed).imp fun f x hx => ?_
    obtain ⟨index, hi, hx⟩ := bind_eq_ok.mp hx
    obtain rfl := pure_eq_ok.mp hx
    exact ⟨hi, rfl⟩
  have hindex : ∀ x ∈ indexed, c.indexer (.field (d.fieldRef x.2)) = .ok x.1 := by
    intro x hx
    obtain ⟨f, -, hi, rfl⟩ := exists_of_mem_left hentries.flip x hx
    exact hi
  have hstatic : indexed.map (·.2) = d.fields.filter (·.isStatic) := by
    rw [← List.forall₂_eq_eq_eq, List.forall₂_map_left_iff]
    exact hentries.flip.imp fun x f hx => hx.2
  rw [List.map_mergeSort (s := fieldLE), hstatic, sortedStaticFields]
  intro x hx y hy
  rw [Bool.eq_iff_iff, decide_eq_true_eq]
  exact Catalog.index_le_iff h (hindex x hx) (hindex y hy)

/-- The fields of a class that is kept have indices. -/
theorem Kept.field_index (hd : Kept classes d) (h : Catalog.discover options classes = .ok c) :
    ∀ f ∈ d.fields, ∃ index, c.indexer (.field (d.fieldRef f)) = .ok index := fun _ hf =>
  (Catalog.serves_of_discover h).index rfl (.named hd (.field hf))

theorem Kept.staticFieldsByIndex (hd : Kept classes d)
    (h : Catalog.discover options classes = .ok c) :
    d.staticFieldsByIndex c.indexer = .ok d.sortedStaticFields := by
  have hsorted : ∃ fields, d.staticFieldsByIndex c.indexer = .ok fields := by
    have hok := mapM_ok (l := d.fields.filter (·.isStatic))
      (f := fun f => do return (← c.indexer (.field (d.fieldRef f)), f)) fun f hf => by
        obtain ⟨index, hi⟩ := hd.field_index h f (List.mem_filter.mp hf).1
        exact ⟨(index, f), by rw [hi]; rfl⟩
    obtain ⟨indexed, hindexed⟩ := hok
    exact ⟨_, by rw [ClassDef.staticFieldsByIndex, hindexed]; rfl⟩
  obtain ⟨fields, hfields⟩ := hsorted
  rw [hfields, staticFieldsByIndex_eq h hfields]

/-- **Class data lists static fields in the order of the array.** -/
theorem Kept.group_staticFields (hd : Kept classes d)
    (h : Catalog.discover options classes = .ok c) :
    ∃ entries, d.fieldEntries c.indexer = .ok entries ∧
      List.Forall₂ (fun f (m : MemberEntry) =>
        c.indexer (.field (d.fieldRef f)) = .ok m.index ∧ m.numbers = [f.flags.bits])
        d.sortedStaticFields (group true entries) := by
  have hok : ∃ entries, d.fieldEntries c.indexer = .ok entries :=
    mapM_ok fun f hf => by
      obtain ⟨index, hi⟩ := hd.field_index h f hf
      exact ⟨(f.isStatic, { index, numbers := [f.flags.bits] }), by rw [hi]; rfl⟩
  obtain ⟨entries, hentries⟩ := hok
  have hmembers : List.Forall₂ (fun f m => m.1 = f.isStatic ∧
      (c.indexer (.field (d.fieldRef f)) = .ok m.2.index ∧ m.2.numbers = [f.flags.bits]))
        d.fields entries := by
    refine (mapM_eq_ok.mp hentries).imp fun f m hm => ?_
    obtain ⟨index, hi, hm⟩ := bind_eq_ok.mp hm
    obtain rfl := pure_eq_ok.mp hm
    exact ⟨rfl, hi, rfl⟩
  obtain ⟨order, hperm, horder⟩ := group_of_members
    (R := fun f (m : MemberEntry) =>
      c.indexer (.field (d.fieldRef f)) = .ok m.index ∧ m.numbers = [f.flags.bits]) hmembers true
  refine ⟨entries, hentries, ?_⟩
  -- no two fields of the class have one name and type, so only one order does not decrease
  have hn := ((Catalog.discover_eq_ok h).1 d hd).1
  have hnames : (order.map fun f => (f.name, f.type)).Nodup :=
    (hperm.map _).nodup_iff.mpr (hn.sublist (List.filter_sublist.map _))
  simp only [beq_true] at hperm
  have hle : order.Pairwise fun f g => (compareNamed (f.name, f.type) (g.name, g.type)).isLE :=
    pairwise_of_forall₂ horder.flip (le_group true entries) fun m m' f g hf hg hle =>
      (Catalog.index_le_iff h hf.1 hg.1).mp hle
  have hsame : order = d.sortedStaticFields :=
    eq_of_pairwise_lt (pairwise_lt_of_isLE hle hnames) (pairwise_sortedStaticFields hn)
      (hperm.trans (List.mergeSort_perm ..).symm)
  exact hsame ▸ horder

/-! ## 4. The statement -/

/-- **Initial values line up with fields.**  Where discovery succeeds, the static fields of each
class that is written have indices, and are in one order by index, by name and type, and in the
class data.  Of a class that is not written the same holds if its fields happen to have indices.
The array has one value for each field in this order up to the last with a value, its own or the
zero of its type; so it is empty if no static field has a value, and only then. -/
theorem static_values_line_up (h : Catalog.discover options classes = .ok c) (d : ClassDef) :
    (Kept classes d →
      d.staticFieldsByIndex c.indexer = .ok d.sortedStaticFields ∧
      ∃ entries, d.fieldEntries c.indexer = .ok entries ∧
        List.Forall₂ (fun f (m : MemberEntry) =>
          c.indexer (.field (d.fieldRef f)) = .ok m.index ∧ m.numbers = [f.flags.bits])
          d.sortedStaticFields (group true entries)) ∧
    (∀ fields, d.staticFieldsByIndex c.indexer = .ok fields → fields = d.sortedStaticFields) ∧
    (∃ upTo rest, d.sortedStaticFields = upTo ++ rest ∧
      d.staticValues = upTo.map (fun f => f.value?.getD (.zero f.type)) ∧
        (∀ f ∈ rest, f.value? = none) ∧ ∀ f ∈ upTo.getLast?, f.value?.isSome = true) ∧
    (d.staticValues = [] ↔ ∀ f ∈ d.fields, f.isStatic = true → f.value? = none) :=
  ⟨fun hd => ⟨hd.staticFieldsByIndex h, hd.group_staticFields h⟩,
    fun _ hf => staticFieldsByIndex_eq h hf, d.staticValues_extent, staticValues_eq_nil⟩

/-- A class with fields of one name, and with names on both sides of the surrogates. -/
def constantsClass : ClassDef where
  descriptor := "LA;"
  fields :=
    [{ name := "\ue000", type := "I", flags := ⟨8⟩, value? := some (.int 1) },
     { name := "b", type := "J" },
     { name := "𐀀", type := "I", flags := ⟨8⟩ },
     { name := "a", type := "J", flags := ⟨8⟩ },
     { name := "a", type := "I", flags := ⟨8⟩, value? := some (.int 2) },
     { name := "\uffff", type := "I", flags := ⟨8⟩ }]

/-- The values of the class, in the order of the indices of its fields. -/
theorem static_values_line_up_constantsClass :
    ∃ c, Catalog.discover {} [constantsClass] = .ok c ∧
      (∃ fields, constantsClass.staticFieldsByIndex c.indexer = .ok fields ∧
        fields.map (·.name) = ["a", "a", "𐀀", "\ue000", "\uffff"]) ∧
      constantsClass.staticValues = [.int 2, .long 0, .int 0, .int 1] := by
  have hvalues : constantsClass.staticValues = [.int 2, .long 0, .int 0, .int 1] := by
    simp only [staticValues, sortedStaticFields, mergeSort_eq_sortUpTo]
    rfl
  have hnames : constantsClass.sortedStaticFields.map (·.name) =
      ["a", "a", "𐀀", "\ue000", "\uffff"] := by
    simp only [sortedStaticFields, mergeSort_eq_sortUpTo]
    decide +kernel
  have hok : (Catalog.discover {} [constantsClass]).isOk = true := by
    have hrun : Catalog.discover {} [constantsClass] = (do
        let c ← [constantsClass].foldlM Catalog.addClass { classes := [constantsClass] }
        c.freeze) := rfl
    simp only [hrun, List.foldlM_cons, List.foldlM_nil, Catalog.addClass, Catalog.addClassAlone,
      hvalues, Catalog.freeze, Catalog.freezeNames, Catalog.freezeProtos, Catalog.freezeMembers,
      Pool.freezeBy, Pool.freezeWith, mergeSort_eq_sortUpTo]
    decide +kernel
  obtain ⟨c, h⟩ := exists_of_isOk hok
  have hkept : Kept [constantsClass] constantsClass := by rfl
  exact ⟨c, h, ⟨_, ((static_values_line_up h constantsClass).1 hkept).1, hnames⟩, hvalues⟩

end ClassDef

end Dalvik
