/-
# Runs over a pool

A pool keeps its items and the map of their places side by side.  Adding writes to both, and sorting
writes the map anew, so that whatever has been called the two agree: the map gives exactly the items
that are there exactly the places where they stand.

* `InStep` is this agreement, `InStep.perform` says that one call preserves it, and `inStep_after`
  that any run from an empty pool leaves it;
* `InStep.freezeAs`: while they agree, freezing cannot fail.
-/
import Mathlib.Data.List.Induction
import Mathlib.Data.List.Nodup
import Mathlib.Data.List.Perm.Subperm
import Dalvik.Container.Pool
import Dalvik.Proofs.Outcome

namespace Dalvik

theorem Bytes.narrow32_of_lt {n : Nat} (h : n < 0x100000000) : narrow32 n = .ok n.toUInt32 :=
  if_pos h

namespace Pool

variable {α : Type}

/-! ## 1. Items and numbers -/

/-- Numbering succeeds if the last place is of 32 bits. -/
theorem numbered_isOk (indices : List (α × UInt32)) {items : List α} {place : Nat}
    (h : place + items.length ≤ 0x100000000) : ∃ map, numbered indices place items = .ok map := by
  induction items generalizing indices place with
  | nil => exact ⟨indices, rfl⟩
  | cons a rest ih =>
    rw [List.length_cons] at h
    rw [numbered, Bytes.narrow32_of_lt (by omega)]
    exact ih _ (by omega)

/-- A numbered item has the place where it stands, and the others have the places that they had. -/
theorem lookup_numbered [BEq α] [LawfulBEq α] {items : List α} {indices map : List (α × UInt32)}
    {start : Nat} (hn : items.Nodup) (h : numbered indices start items = .ok map) (a : α)
    (place : UInt32) :
    map.lookup a = some place ↔
      (∃ k, items[k]? = some a ∧ place.toNat = start + k) ∨
        a ∉ items ∧ indices.lookup a = some place := by
  induction items generalizing indices start with
  | nil =>
    cases h
    simp
  | cons b rest ih =>
    obtain ⟨index, hindex, hrest⟩ := bind_eq_ok.mp h
    obtain ⟨hb, hnodup⟩ := List.nodup_cons.mp hn
    rw [ih hnodup hrest]
    have hstart := Bytes.narrow32_eq_ok hindex
    by_cases hab : a = b
    · -- the item itself has just been written, and does not come again
      subst hab
      rw [List.lookup_cons_self, Option.some.injEq]
      constructor
      · rintro (⟨k, hk, -⟩ | ⟨-, rfl⟩)
        · exact (hb (List.mem_of_getElem? hk)).elim
        · exact .inl ⟨0, rfl, hstart⟩
      · rintro (⟨k, hk, hplace⟩ | ⟨hm, -⟩)
        · cases k with
          | zero => exact .inr ⟨hb, UInt32.toNat_inj.mp (hstart.trans hplace.symm)⟩
          | succ k => exact (hb (List.mem_of_getElem? hk)).elim
        · exact (hm (List.mem_cons_self ..)).elim
    · rw [List.lookup_cons, beq_false_of_ne hab]
      refine or_congr ?_ (and_congr ?_ Iff.rfl)
      · constructor
        · rintro ⟨k, hk, hplace⟩
          exact ⟨k + 1, hk, by omega⟩
        · rintro ⟨k, hk, hplace⟩
          cases k with
          | zero => exact (hab (Option.some.inj hk).symm).elim
          | succ k => exact ⟨k, hk, by omega⟩
      · rw [List.mem_cons, not_or]
        exact (and_iff_right hab).symm

theorem get?_grown {p : Pool α} {a b : α} {index : UInt32} {place : Nat} :
    (p.grown a index).get? place = some b ↔
      p.get? place = some b ∨ place = p.items.length ∧ b = a := by
  rw [get?, get?, Pool.grown, List.getElem?_append]
  split
  case isTrue hlt =>
    rw [or_iff_left]
    rintro ⟨rfl, -⟩
    exact Nat.lt_irrefl _ hlt
  case isFalse hge =>
    rw [List.getElem?_eq_none (Nat.le_of_not_lt hge), List.getElem?_singleton]
    split
    case isTrue hz => simp [show place = p.items.length by omega, eq_comm]
    case isFalse hz => simp [show place ≠ p.items.length by omega]

/-- Freezing takes over the order that it is given, and that is all that it does to the items. -/
theorem freezeAs_eq_ok {p q : Pool α} {order : List α} (h : p.freezeAs order = .ok q) :
    q.items = order ∧ q.name = p.name ∧ q.frozen = true := by
  obtain ⟨sorted, hsorted, hq⟩ := bind_eq_ok.mp h
  obtain ⟨map, -, hmap⟩ := bind_eq_ok.mp hsorted
  cases hq
  cases hmap
  exact ⟨rfl, rfl, rfl⟩

theorem sortedBy_perm (sortKey : α → List Nat) (items : List α) :
    (((items.map fun a => (sortKey a, a)).mergeSort fun a b => (compare a.1 b.1).isLE).map
      (·.2)).Perm items := by
  have h := (List.mergeSort_perm (items.map fun a => (sortKey a, a))
    fun a b => (compare a.1 b.1).isLE).map (·.2)
  rwa [List.map_map, show (Prod.snd ∘ fun a => (sortKey a, a)) = id from rfl, List.map_id] at h

/-! ## 2. Items and map in step -/

variable [BEq α] {p q : Pool α} {a : α} {place : Nat}

/-- The place of an item is where the item is, and the other way round; all places are of 32
bits. -/
structure InStep (p : Pool α) : Prop where
  index?_iff : ∀ a place, p.index? a = some place ↔ p.get? place = some a
  length_le : p.items.length ≤ 0x100000000

theorem InStep.empty (name : String) : InStep { name := name, items := ([] : List α) } where
  index?_iff a place := by simp [index?, get?]
  length_le := Nat.zero_le _

theorem InStep.nodup (h : p.InStep) : p.items.Nodup := by
  refine List.pairwise_iff_getElem.mpr fun i j hi hj hij heq => ?_
  have hfound := (h.index?_iff p.items[i] i).mpr (List.getElem?_eq_getElem hi)
  have hfound' := (h.index?_iff p.items[i] j).mpr (heq ▸ List.getElem?_eq_getElem hj)
  have hplaces := Option.some.inj (hfound.symm.trans hfound')
  omega

theorem InStep.index?_isSome (h : p.InStep) : (p.index? a).isSome = true ↔ a ∈ p.items := by
  rw [Option.isSome_iff_exists, List.mem_iff_getElem?]
  exact exists_congr fun place => h.index?_iff a place

theorem InStep.index?_of_not_mem (h : p.InStep) (ha : a ∉ p.items) : p.index? a = none := by
  rw [← Option.not_isSome_iff_eq_none, h.index?_isSome]
  exact ha

/-- Pools of the same items give them the same places. -/
theorem InStep.index?_congr (hp : p.InStep) (hq : q.InStep) (h : p.items = q.items) (a : α) :
    p.index? a = q.index? a := by
  refine Option.ext fun place => ?_
  rw [hp.index?_iff, hq.index?_iff, get?, get?, h]

/-! ## 3. Adding -/

theorem InStep.add_of_mem (h : p.InStep) (ha : a ∈ p.items) : p.add a = .ok (p, false) := by
  rw [add, if_pos (h.index?_isSome.mpr ha)]

/-- An item that is new is refused by a frozen pool. -/
theorem InStep.add_of_frozen (h : p.InStep) (ha : a ∉ p.items) (hf : p.frozen = true) :
    p.add a = .error (.frozenPool p.name) := by
  rw [add, h.index?_of_not_mem ha, if_neg (by simp), if_pos hf]

/-- An item that is new to an open pool gets the next place, if there is one. -/
theorem InStep.add_of_not_mem (h : p.InStep) (ha : a ∉ p.items) (hf : p.frozen = false)
    (hl : p.items.length < 0x100000000) :
    p.add a = .ok (p.grown a p.items.length.toUInt32, true) := by
  rw [add, h.index?_of_not_mem ha, if_neg (by simp), if_neg (by simp [hf]),
    Bytes.narrow32_of_lt hl]
  rfl

/-- A new item is only added to a pool that is open and not full. -/
theorem InStep.add_eq_ok {new : Bool} (h : p.InStep) (ha : a ∉ p.items)
    (hadd : p.add a = .ok (q, new)) : p.frozen = false ∧ p.items.length < 0x100000000 := by
  have hopen : p.frozen = false := by
    by_contra hf
    rw [h.add_of_frozen ha (by simpa using hf)] at hadd
    cases hadd
  refine ⟨hopen, ?_⟩
  by_contra hl
  rw [add, h.index?_of_not_mem ha, if_neg (by simp), if_neg (by simp [hopen])] at hadd
  obtain ⟨place, hplace, -⟩ := bind_eq_ok.mp hadd
  simp [Bytes.narrow32, hl] at hplace

theorem InStep.grown [LawfulBEq α] (h : p.InStep) (ha : a ∉ p.items)
    (hl : p.items.length < 0x100000000) : (p.grown a p.items.length.toUInt32).InStep where
  index?_iff b place := by
    rw [get?_grown]
    by_cases hb : b = a
    · subst hb
      have hnone : p.get? place ≠ some b := fun hk => ha (List.mem_of_getElem? hk)
      have hlast : (p.grown b p.items.length.toUInt32).index? b = some p.items.length := by
        rw [index?, Pool.grown, List.lookup_cons_self, Option.map_some, Nat.toUInt32_eq,
          UInt32.toNat_ofNat_of_lt' hl]
      rw [hlast, Option.some.injEq, or_iff_right hnone, and_iff_left rfl, eq_comm]
    · have hother : (p.grown a p.items.length.toUInt32).index? b = p.index? b := by
        rw [index?, Pool.grown, List.lookup_cons, beq_false_of_ne hb, index?]
      rw [hother, h.index?_iff, or_iff_left fun hk => hb hk.2]
  length_le := by
    rw [Pool.grown, List.length_append, List.length_singleton]
    exact hl

/-! ## 4. Freezing -/

/-- Numbering different items anew gives every one the place where it stands. -/
theorem inStep_of_numbered [LawfulBEq α] {map : List (α × UInt32)} (hn : p.items.Nodup)
    (hl : p.items.length ≤ 0x100000000) (h : numbered [] 0 p.items = .ok map) :
    InStep { p with indices := map } where
  index?_iff a place := by
    rw [index?, get?, Option.map_eq_some_iff]
    constructor
    · rintro ⟨index, hindex, rfl⟩
      obtain ⟨k, hk, hplace⟩ | ⟨-, hnone⟩ := (lookup_numbered hn h a index).mp hindex
      · rwa [hplace, Nat.zero_add]
      · cases hnone
    · intro hk
      obtain ⟨hlt, -⟩ := List.getElem?_eq_some_iff.mp hk
      have hplace : place.toUInt32.toNat = place := by
        rw [Nat.toUInt32_eq, UInt32.toNat_ofNat_of_lt' (Nat.lt_of_lt_of_le hlt hl)]
      exact ⟨place.toUInt32, (lookup_numbered hn h a _).mpr (.inl ⟨place, hk, by omega⟩), hplace⟩
  length_le := hl

/-- **Freezing.**  Taking the items in another order cannot fail, and leaves items and map in
step. -/
theorem InStep.freezeAs [LawfulBEq α] (h : p.InStep) {order : List α}
    (hperm : order.Perm p.items) : ∃ q, p.freezeAs order = .ok q ∧ q.InStep := by
  have hl : order.length ≤ 0x100000000 := hperm.length_eq ▸ h.length_le
  obtain ⟨map, hmap⟩ := numbered_isOk [] (show 0 + order.length ≤ 0x100000000 by omega)
  have hstep : InStep { p with items := order, indices := map } :=
    inStep_of_numbered (p := { p with items := order }) (hperm.nodup_iff.mpr h.nodup) hl hmap
  refine ⟨{ p with items := order, indices := map, frozen := true }, ?_,
    ⟨hstep.index?_iff, hstep.length_le⟩⟩
  rw [Pool.freezeAs, reindex, hmap]
  rfl

/-- What freezing leaves of a pool: its items in another order, in step with their map if they were
so before. -/
structure FrozenTo (p q : Pool α) : Prop where
  perm : q.items.Perm p.items
  name_eq : q.name = p.name
  frozen : q.frozen = true
  inStep : p.InStep → q.InStep

theorem frozenTo_of_freezeAs [LawfulBEq α] {order : List α} (hperm : order.Perm p.items)
    (h : p.freezeAs order = .ok q) : FrozenTo p q := by
  obtain ⟨hitems, hname, hfrozen⟩ := freezeAs_eq_ok h
  refine ⟨hitems ▸ hperm, hname, hfrozen, fun hp => ?_⟩
  obtain ⟨r, hr, hstep⟩ := hp.freezeAs hperm
  cases hr.symm.trans h
  exact hstep

theorem frozenTo_of_freezeWith [LawfulBEq α] {le : α → α → Bool} (h : p.freezeWith le = .ok q) :
    FrozenTo p q :=
  frozenTo_of_freezeAs (List.mergeSort_perm ..) h

theorem frozenTo_of_freezeBy [LawfulBEq α] {sortKey : α → List Nat}
    (h : p.freezeBy sortKey = .ok q) : FrozenTo p q :=
  frozenTo_of_freezeAs (sortedBy_perm sortKey p.items) h

theorem InStep.freezeWith_isOk [LawfulBEq α] (h : p.InStep) (le : α → α → Bool) :
    ∃ q, p.freezeWith le = .ok q := by
  obtain ⟨q, hq, -⟩ := h.freezeAs (List.mergeSort_perm p.items le)
  exact ⟨q, hq⟩

theorem InStep.freezeBy_isOk [LawfulBEq α] (h : p.InStep) (sortKey : α → List Nat) :
    ∃ q, p.freezeBy sortKey = .ok q := by
  obtain ⟨q, hq, -⟩ := h.freezeAs (sortedBy_perm sortKey p.items)
  exact ⟨q, hq⟩

/-! ## 5. Runs -/

/-- A call of a pool. -/
inductive Call (α : Type) where
  | add (a : α)
  | freezeWith (le : α → α → Bool)
  | freezeBy (sortKey : α → List Nat)

/-- The pool that a call answers. -/
def Call.perform (p : Pool α) : Call α → Except Error (Pool α)
  | add a => (·.1) <$> p.add a
  | freezeWith le => p.freezeWith le
  | freezeBy sortKey => p.freezeBy sortKey

/-- The pool that a call leaves; one that fails leaves it as it was. -/
def Call.after (p : Pool α) (call : Call α) : Pool α :=
  match call.perform p with
  | .ok q => q
  | .error _ => p

/-- The pool that a run of calls leaves. -/
def after (p : Pool α) (calls : List (Call α)) : Pool α :=
  calls.foldl Call.after p

variable [LawfulBEq α]

theorem InStep.add {new : Bool} (h : p.InStep) (hadd : p.add a = .ok (q, new)) : q.InStep := by
  by_cases ha : a ∈ p.items
  · cases (h.add_of_mem ha).symm.trans hadd
    exact h
  · obtain ⟨hf, hl⟩ := h.add_eq_ok ha hadd
    cases (h.add_of_not_mem ha hf hl).symm.trans hadd
    exact h.grown ha hl

/-- **One call** leaves items and map in step. -/
theorem InStep.perform {call : Call α} (h : p.InStep) (hcall : call.perform p = .ok q) :
    q.InStep := by
  cases call with
  | add a =>
    obtain ⟨⟨r, new⟩, hr, rfl⟩ := map_eq_ok.mp hcall
    exact h.add hr
  | freezeWith le => exact (frozenTo_of_freezeWith hcall).inStep h
  | freezeBy sortKey => exact (frozenTo_of_freezeBy hcall).inStep h

theorem InStep.afterCall (h : p.InStep) (call : Call α) : (call.after p).InStep := by
  rw [Call.after]
  split
  case h_1 q hcall => exact h.perform hcall
  case h_2 => exact h

/-- **Any run** from an empty pool leaves items and map in step. -/
theorem inStep_after (name : String) (calls : List (Call α)) :
    (after { name } calls).InStep := by
  induction calls using List.reverseRecOn with
  | nil => exact .empty name
  | append_singleton calls call ih =>
    rw [after, List.foldl_concat]
    exact ih.afterCall call

end Pool

end Dalvik
