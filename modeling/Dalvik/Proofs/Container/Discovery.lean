/-
# Discovery is exactly closed

Discovery succeeds exactly if no class that is kept defines a field or a method twice, as long as no
kind of thing has more members than there are indices.  The pools then have exactly what is reached.
What is shared by content is held by its key: all that is reached is found, and all that is there is
reached.

* `mem_listing`: the list of all insertions has exactly what is reached;
* `discover_eq_ok`: a successful discovery is the insertion of that list, frozen;
* `discover_isOk` and `discover_stored` are the two statements above.
-/
import Dalvik.Proofs.Container.Reached

namespace Dalvik

/-- A class that defines no field, by name and type, and no method, by name and prototype, twice. -/
def ClassDef.MembersDiffer (d : ClassDef) : Prop :=
  (d.fields.map fun f => (f.name, f.type)).Nodup ∧ (d.methods.map fun m => (m.name, m.proto)).Nodup

theorem ClassDef.membersDiffer_iff {d : ClassDef} :
    d.MembersDiffer ↔ (d.fields.map d.fieldRef).Nodup ∧ (d.methods.map d.methodRef).Nodup := by
  have hf : Function.Injective fun x : String × String => FieldRef.mk d.descriptor x.1 x.2 := by
    intro a b h
    simpa [Prod.ext_iff] using h
  have hm : Function.Injective fun x : String × Proto => MethodRef.mk d.descriptor x.1 x.2 := by
    intro a b h
    simpa [Prod.ext_iff] using h
  rw [MembersDiffer, ← List.nodup_map_iff hf, ← List.nodup_map_iff hm, List.map_map, List.map_map]
  rfl

namespace Catalog

open Entity ClassDef

variable {options : Container.Options} {classes : List ClassDef} {c : Catalog}

/-! ## 1. All insertions -/

/-- The empty set, if it is wanted and a list of sets may refer to it. -/
def ofEmptySet (options : Container.Options) (classes : List ClassDef) : List Entity :=
  if options.emptySet && annotatesParameters classes then [.annotationSet []] else []

/-- Everything that discovery inserts, in order. -/
def listing (options : Container.Options) (classes : List ClassDef) : List Entity :=
  ofEmptySet options (inOrder classes) ++ (inOrder classes).flatMap ofClass

theorem mem_ofEmptySet {e : Entity} :
    e ∈ ofEmptySet options (inOrder classes) ↔ e = .annotationSet [] ∧ options.emptySet = true ∧
      ∃ d : ClassDef, d.Kept classes ∧ ∃ m ∈ d.methods, m.hasParameterAnnotations = true := by
  have hp : (options.emptySet && annotatesParameters (inOrder classes)) = true ↔
      options.emptySet = true ∧
        ∃ d : ClassDef, d.Kept classes ∧ ∃ m ∈ d.methods, m.hasParameterAnnotations = true := by
    simp only [annotatesParameters, Bool.and_eq_true, List.any_eq_true, mem_inOrder]
  rw [ofEmptySet, ← hp]
  split
  case isTrue h => simp [h]
  case isFalse h => simp [h]

theorem ofClass_complete (d : ClassDef) : Complete (ofClass d) := by
  refine (addClassAlone_adds (Nat.lt_succ_self 2) d).complete.append (.append ?_ ?_)
  · exact (Adds.foldlM fun f _ => addFieldOf_adds (Nat.lt_succ_self 2) d f).complete
  · exact (Adds.foldlM fun m _ => addMethodOf_adds (Nat.lt_succ_self 2) d m).complete

/-- **The insertions** are what is reached. -/
theorem mem_listing {e : Entity} : e ∈ listing options classes ↔ Reached options classes e := by
  constructor
  · intro h
    rcases List.mem_append.mp h with h | h
    · obtain ⟨rfl, ho, d, hd, m, hm, hp⟩ := mem_ofEmptySet.mp h
      exact .emptySet ho hd hm hp
    · obtain ⟨d, hd, h⟩ := List.mem_flatMap.mp h
      have hR : Closed (Reached options classes) := fun _ _ he hx => .implied he hx
      exact forall_ofClass hR (fun x hx => .named (mem_inOrder.mp hd) hx) e h
  · intro h
    induction h with
    | named hd h =>
      exact List.mem_append_right _ (List.mem_flatMap.mpr
        ⟨_, mem_inOrder.mpr hd, names_mem_ofClass h⟩)
    | implied _ hx ih =>
      -- the empty set implies nothing, and the list of a class has what its things need
      rcases List.mem_append.mp ih with ih | ih
      · obtain ⟨rfl, -⟩ := mem_ofEmptySet.mp ih
        cases hx
      · obtain ⟨d, hd, ih⟩ := List.mem_flatMap.mp ih
        exact List.mem_append_right _ (List.mem_flatMap.mpr
          ⟨d, hd, ofClass_complete d _ ih _ hx.mem_needs⟩)
    | emptySet ho hd hm hp =>
      exact List.mem_append_left _ (mem_ofEmptySet.mpr ⟨rfl, ho, _, hd, _, hm, hp⟩)

/-! ## 2. Discovery as an insertion -/

theorem addEmptySet_eq (c : Catalog) :
    c.addEmptySet options = c.insertAll (ofEmptySet options c.classes) := by
  rw [addEmptySet, ofEmptySet]
  split
  · rw [insertAll_cons]
    exact (bind_pure _).symm
  · rfl

theorem complete_ofEmptySet : Complete (ofEmptySet options classes) := by
  intro e he x hx
  rw [ofEmptySet] at he
  split at he
  · rw [List.mem_singleton.mp he] at hx
    exact (List.not_mem_nil hx).elim
  · exact (List.not_mem_nil he).elim

/-- A catalog of classes without repeated members is the insertion of all that they need. -/
theorem discover_of_differ (h : ∀ d : ClassDef, d.Kept classes → d.MembersDiffer) :
    discover options classes = (do
      let c : Catalog ← insertAll { classes := inOrder classes } (listing options classes)
      c.freeze) := by
  rw [discover, listing, insertAll_append, addEmptySet_eq, bind_assoc]
  refine bind_congr_ok fun c hc => ?_
  have hcl : c.classes = inOrder classes := (insertAll_eq_ok (inStep_new _) hc).2.2
  have hclosed := (closedTo_new 3 (inOrder classes)).insertAll complete_ofEmptySet hc
  have hadds : Adds 3 (fun c => (inOrder classes).foldlM addClass c)
      ((inOrder classes).flatMap ofClass) := .foldlM fun d hd => by
    obtain ⟨hf, hm⟩ := membersDiffer_iff.mp (h d (mem_inOrder.mp hd))
    exact addClass_adds (Nat.lt_succ_self 2) d hf hm
  rw [hcl, hadds.eq c hclosed]

theorem differ_of_foldlM {all : List ClassDef} {c c' : Catalog}
    (h : all.foldlM addClass c = .ok c') : ∀ d ∈ all, d.MembersDiffer := by
  induction all generalizing c with
  | nil => simp
  | cons d rest ih =>
    rw [List.foldlM_cons] at h
    obtain ⟨c₁, hd, h⟩ := bind_eq_ok.mp h
    rintro e (_ | ⟨_, he⟩)
    · exact membersDiffer_iff.mpr (nodup_of_addClass hd)
    · exact ih h e he

/-- **A successful discovery** is the insertion of all that is reached, and no class that is kept
repeats a member. -/
theorem discover_eq_ok (h : discover options classes = .ok c) :
    (∀ d : ClassDef, d.Kept classes → d.MembersDiffer) ∧
      ∃ c', insertAll { classes := inOrder classes } (listing options classes) = .ok c' ∧
        c'.freeze = .ok c := by
  have hd : ∀ d : ClassDef, d.Kept classes → d.MembersDiffer := by
    obtain ⟨c₁, h₁, hr⟩ := bind_eq_ok.mp h
    obtain ⟨c₂, h₂, -⟩ := bind_eq_ok.mp hr
    rw [addEmptySet_eq] at h₁
    rw [(insertAll_eq_ok (inStep_new _) h₁).2.2] at h₂
    exact fun d hd => differ_of_foldlM h₂ d (mem_inOrder.mpr hd)
  rw [discover_of_differ hd] at h
  obtain ⟨c', hc, hfreeze⟩ := bind_eq_ok.mp h
  exact ⟨hd, c', hc, hfreeze⟩

/-- Each pool of a discovered catalog agrees with the map of its places. -/
theorem inStep_of_discover (h : discover options classes = .ok c) : c.InStep := by
  obtain ⟨-, c', hc, hfreeze⟩ := discover_eq_ok h
  exact ((inStep_new _).insertAll hc).freeze hfreeze

theorem nodup_of_discover (h : discover options classes = .ok c) (e : Entity) :
    (c.peers e).Nodup := by
  obtain ⟨-, c', hc, hfreeze⟩ := discover_eq_ok h
  have hnew : Within (fun _ => True) { classes := ClassDef.inOrder classes } := within_new _
  have hn := (apart_of_insertAll hnew.inStep hnew.apart hc e).nodup
  exact (peers_freeze hfreeze e).nodup_iff.mpr hn

/-! ## 3. What discovery finds -/

/-- **Success, whatever the size.**  Discovery succeeds exactly if no class that is kept repeats a
member and there is room for all that is reached. -/
theorem discover_isOk_iff : (∃ c, discover options classes = .ok c) ↔
    (∀ d : ClassDef, d.Kept classes → d.MembersDiffer) ∧ Room (Reached options classes) := by
  have hroom : (∃ c, insertAll { classes := inOrder classes } (listing options classes) = .ok c) ↔
      Room (Reached options classes) := by
    rw [insertAll_new_isOk]
    simp only [Room, mem_listing]
  constructor
  · rintro ⟨c, h⟩
    obtain ⟨hd, c', hc, -⟩ := discover_eq_ok h
    exact ⟨hd, hroom.mp ⟨c', hc⟩⟩
  · rintro ⟨hd, hr⟩
    obtain ⟨c', hc⟩ := hroom.mpr hr
    obtain ⟨c, hfreeze⟩ := ((inStep_new _).insertAll hc).freeze_isOk
    rw [discover_of_differ hd]
    exact ⟨c, bind_eq_ok.mpr ⟨c', hc, hfreeze⟩⟩

/-- **Success.**  Discovery succeeds exactly if no class that is kept repeats a member. -/
theorem discover_isOk (hfit : Fits (Reached options classes)) :
    (∃ c, discover options classes = .ok c) ↔
      ∀ d : ClassDef, d.Kept classes → d.MembersDiffer := by
  rw [discover_isOk_iff, and_iff_left hfit.room]

/-- What is in a catalog is reached. -/
theorem reached_of_stored (h : discover options classes = .ok c) {e : Entity}
    (he : c.Stored e) : Reached options classes e := by
  obtain ⟨-, c', hc, hfreeze⟩ := discover_eq_ok h
  rcases (insertAll_eq_ok (inStep_new _) hc).1 e ((stored_freeze hfreeze).mp he) with he | he
  · exact (not_stored_new _ e he).elim
  · exact mem_listing.mp he

/-- What is reached is found. -/
theorem holds_of_reached (h : discover options classes = .ok c) {e : Entity}
    (he : Reached options classes e) : c.Holds e := by
  obtain ⟨-, c', hc, hfreeze⟩ := discover_eq_ok h
  exact (holds_freeze hfreeze).mpr (((insertAll_eq_ok (inStep_new _) hc).2.1 e).mpr
    (.inr ⟨e, mem_listing.mpr he, .refl e⟩))

theorem classes_of_discover (h : discover options classes = .ok c) :
    c.classes = inOrder classes := by
  obtain ⟨-, c', hc, hfreeze⟩ := discover_eq_ok h
  exact (frozenTo_of_freeze hfreeze).classes.trans (insertAll_eq_ok (inStep_new _) hc).2.2

/-- **The pools** have exactly what is reached. -/
theorem discover_stored (h : discover options classes = .ok c) {e : Entity} (he : Pooled e) :
    c.Stored e ↔ Reached options classes e :=
  ⟨reached_of_stored h, fun hr => (holds_of_reached h hr).stored he⟩

end Catalog

end Dalvik
