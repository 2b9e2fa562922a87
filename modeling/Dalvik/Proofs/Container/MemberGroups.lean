/-
# Class data read back

The class data of a class is four groups of members, sorted by index, and each index is written as
the difference to the one before.  A reader that sums up the differences finds the indices again,
for in a sorted group no difference is negative.

The members of a group are those of the class that belong in it, each once: a group is sorted after
it has been selected, and two members of a class have different indices because they differ.

* `MemberFound.readFrom` and `ClassData.read` are the readers, and `MembersAre` says what they are
  to find in a group;
* `takes_encodeFrom` says what is found in the bytes of a group, and `takes_classData` in those of
  the class data;
* `members_of_group` says that a group has the members that belong in it.
-/
import Dalvik.Container.ClassItems
import Dalvik.Proofs.Container.Appending
import Dalvik.Proofs.Sorting

namespace Dalvik

/-! ## 1. The readers -/

/-- A member as class data has it. -/
structure MemberFound where
  /-- The sum of the differences up to this one. -/
  index : Nat
  /-- The numbers after the index: the flags and, for a method, the offset of its code. -/
  numbers : List UInt32
  deriving DecidableEq, Repr, Inhabited

/-- Reads members after one with the given index; `width` is how many numbers each has. -/
def MemberFound.readFrom (width previous : Nat) : (count : Nat) → Reader (List MemberFound)
  | 0 => return []
  | count + 1 => do
    let difference ← Cursor.uleb128
    let numbers ← Reader.times width Cursor.uleb128
    let index := previous + difference.toNat
    return { index, numbers } :: (← readFrom width index count)

/-- The class data of a class. -/
structure ClassData where
  staticFields : List MemberFound
  instanceFields : List MemberFound
  directMethods : List MemberFound
  virtualMethods : List MemberFound
  deriving DecidableEq, Repr, Inhabited

/-- **Reads class data**: four counts, and the groups. -/
def ClassData.read : Reader ClassData := do
  let staticCount ← Cursor.uleb128
  let instanceCount ← Cursor.uleb128
  let directCount ← Cursor.uleb128
  let virtualCount ← Cursor.uleb128
  let staticFields ← MemberFound.readFrom 1 0 staticCount.toNat
  let instanceFields ← MemberFound.readFrom 1 0 instanceCount.toNat
  let directMethods ← MemberFound.readFrom 2 0 directCount.toNat
  let virtualMethods ← MemberFound.readFrom 2 0 virtualCount.toNat
  return { staticFields, instanceFields, directMethods, virtualMethods }

/-! ## 2. Groups -/

namespace MemberEntry

/-- The member as it is found. -/
def found (m : MemberEntry) : MemberFound where
  index := m.index.toNat
  numbers := m.numbers

/-- **A group** whose indices do not decrease is read back. -/
theorem takes_encodeFrom {width : Nat} {group : List MemberEntry} {previous : UInt32} {pos : Nat}
    (hw : ∀ m ∈ group, m.numbers.length = width)
    (hs : group.Pairwise fun a b => a.index ≤ b.index) (hp : ∀ m ∈ group, previous ≤ m.index) :
    Takes (MemberFound.readFrom width previous.toNat group.length) pos (encodeFrom previous group)
      (group.map found) := by
  induction group generalizing previous pos with
  | nil => exact .pure pos []
  | cons m rest ih =>
    obtain ⟨hm, hrest⟩ := List.pairwise_cons.mp hs
    have hsum : previous.toNat + (m.index - previous).toNat = m.index.toNat := by
      have hle := hp m (List.mem_cons_self ..)
      rw [UInt32.toNat_sub_of_le _ _ hle]
      have hn : previous.toNat ≤ m.index.toNat := UInt32.le_iff_toNat_le.mp hle
      omega
    have hnumbers : ∀ p, Takes (Reader.times width Cursor.uleb128) p
        (m.numbers.flatMap Leb128.encodeUnsigned) m.numbers := by
      intro p
      have htimes := Takes.times_map (f := id) (fun n (_ : n ∈ m.numbers) q => Takes.uleb128 q n) p
      rwa [List.map_id, hw m (List.mem_cons_self ..)] at htimes
    rw [encodeFrom, List.append_assoc, List.length_cons, MemberFound.readFrom]
    refine (Takes.uleb128 _ _).bind ((hnumbers _).bind ?_)
    rw [hsum]
    exact (ih (fun x hx => hw x (List.mem_cons_of_mem _ hx)) hrest hm).map

/-- The members can be a group: each has as many numbers, and the indices do not decrease. -/
structure Sorted (width : Nat) (group : List MemberEntry) : Prop where
  width : ∀ m ∈ group, m.numbers.length = width
  indices : group.Pairwise fun a b => a.index ≤ b.index

theorem Sorted.takes {width : Nat} {group : List MemberEntry} (h : Sorted width group)
    {count : UInt32} (hc : Bytes.narrow32 group.length = .ok count) (pos : Nat) :
    Takes (MemberFound.readFrom width 0 count.toNat) pos (encodeGroup group) (group.map found) := by
  rw [Bytes.narrow32_eq_ok hc]
  exact takes_encodeFrom h.width h.indices fun _ _ => UInt32.zero_le

/-- **The bytes of class data** are those of its groups. -/
theorem takes_classData {statics instances directs virtuals : List MemberEntry}
    {data : List UInt8} (hs : Sorted 1 statics) (hi : Sorted 1 instances) (hd : Sorted 2 directs)
    (hv : Sorted 2 virtuals)
    (h : Part.joined ([statics, instances, directs, virtuals].map (fun g => Part.count g.length) ++
      [statics, instances, directs, virtuals].map fun g => .ok (encodeGroup g)) = .ok data)
    (pos : Nat) : Takes ClassData.read pos data
      ⟨statics.map found, instances.map found, directs.map found, virtuals.map found⟩ := by
  obtain ⟨_, _, hcounts, hgroups, rfl⟩ := Part.joined_append_eq_ok.mp h
  obtain ⟨_, _, h₁, hcounts₁, rfl⟩ := Part.joined_cons_eq_ok.mp hcounts
  obtain ⟨_, _, h₂, hcounts₂, rfl⟩ := Part.joined_cons_eq_ok.mp hcounts₁
  obtain ⟨_, _, h₃, hcounts₃, rfl⟩ := Part.joined_cons_eq_ok.mp hcounts₂
  obtain ⟨_, _, h₄, hnil, rfl⟩ := Part.joined_cons_eq_ok.mp hcounts₃
  obtain rfl := Except.ok.inj hnil
  obtain ⟨staticCount, hn₁, rfl⟩ := map_eq_ok.mp h₁
  obtain ⟨instanceCount, hn₂, rfl⟩ := map_eq_ok.mp h₂
  obtain ⟨directCount, hn₃, rfl⟩ := map_eq_ok.mp h₃
  obtain ⟨virtualCount, hn₄, rfl⟩ := map_eq_ok.mp h₄
  rw [← Except.ok.inj hgroups]
  simp only [List.append_assoc, List.append_nil]
  refine (Takes.uleb128 _ _).bind ((Takes.uleb128 _ _).bind ((Takes.uleb128 _ _).bind
    ((Takes.uleb128 _ _).bind ?_)))
  exact (hs.takes hn₁ _).bind ((hi.takes hn₂ _).bind ((hd.takes hn₃ _).bind (hv.takes hn₄ _).map))

end MemberEntry

/-- The members found are the given ones, each once, in the order of their indices. -/
structure MembersAre {α : Type} (is : α → MemberFound → Prop) (members : List α)
    (found : List MemberFound) : Prop where
  increasing : found.Pairwise fun x y => x.index < y.index
  same : ∃ order : List α, order.Perm members ∧ List.Forall₂ is order found

namespace ClassDef

/-! ## 3. The members of a group -/

/-- **A group** has the members that belong in it, each once. -/
theorem group_of_members {α : Type} {kind : α → Bool} {R : α → MemberEntry → Prop} {items : List α}
    {members : List (Bool × MemberEntry)}
    (h : List.Forall₂ (fun a m => m.1 = kind a ∧ R a m.2) items members) (first : Bool) :
    ∃ order : List α, order.Perm (items.filter fun a => kind a == first) ∧
      List.Forall₂ R order (group first members) := by
  have hfilter : List.Forall₂ (fun a m => m.1 = kind a ∧ R a m.2)
      (items.filter fun a => kind a == first) (members.filter fun m => m.1 == first) := by
    refine List.rel_filter ?_ h
    rintro a m ⟨hk, -⟩
    show (kind a == first) = true ↔ (m.1 == first) = true
    rw [hk]
  have hmap : List.Forall₂ R (items.filter fun a => kind a == first)
      ((members.filter fun m => m.1 == first).map (·.2)) :=
    List.forall₂_map_right_iff.mpr (hfilter.imp fun _ _ hm => hm.2)
  have hsorted : (group first members).Perm ((members.filter fun m => m.1 == first).map (·.2)) :=
    List.mergeSort_perm ..
  obtain ⟨order, horder, hperm⟩ := List.perm_comp_forall₂ hsorted hmap.flip
  exact ⟨order, hperm, horder.flip⟩

/-- Sorted members do not decrease. -/
theorem le_group (first : Bool) (members : List (Bool × MemberEntry)) :
    (group first members).Pairwise fun a b => a.index ≤ b.index := by
  have hsorted : (group first members).Pairwise fun a b =>
      (compare (a.index :: a.numbers) (b.index :: b.numbers)).isLE = true :=
    pairwise_mergeSort_isLE (f := fun m : MemberEntry => m.index :: m.numbers) _
  refine hsorted.imp ?_
  intro a b h
  rw [List.compare_cons_cons] at h
  exact Std.isLE_compare.mp (Ordering.isLE_left_of_isLE_then h)

section

variable {α ρ : Type} {kind : α → Bool} {is : α → MemberFound → Prop} {items : List α}
  {members : List (Bool × MemberEntry)}

theorem sorted_group {width : Nat}
    (h : List.Forall₂ (fun a m => m.1 = kind a ∧ is a m.2.found) items members)
    (hw : ∀ a m, is a m → m.numbers.length = width) (first : Bool) :
    MemberEntry.Sorted width (group first members) where
  width := by
    intro m hm
    obtain ⟨order, -, horder⟩ := group_of_members (R := fun a m => is a m.found) h first
    obtain ⟨a, -, ha⟩ := exists_of_mem_left horder.flip m hm
    exact hw a m.found ha
  indices := le_group first members

/-- **The members of a group** are found as those that belong in it, in the order of their indices,
if their references differ. -/
theorem members_of_group {reference : α → ρ} {pool : List ρ}
    (h : List.Forall₂ (fun a m => m.1 = kind a ∧ is a m.2.found) items members)
    (hp : ∀ a m, is a m → pool[m.index]? = some (reference a)) (hn : (items.map reference).Nodup)
    (first : Bool) : MembersAre is (items.filter fun a => kind a == first)
      ((group first members).map MemberEntry.found) := by
  obtain ⟨order, hperm, horder⟩ := group_of_members (R := fun a m => is a m.found) h first
  have hfound : (group first members).map (fun m => pool[m.index.toNat]?) =
      order.map fun a => some (reference a) := by
    rw [← List.forall₂_eq_eq_eq, List.forall₂_map_left_iff, List.forall₂_map_right_iff]
    exact horder.flip.imp fun m a ha => hp a m.found ha
  have hsome : (order.map fun a => some (reference a)).Nodup := by
    have horder : (order.map reference).Nodup :=
      (hperm.map reference).nodup_iff.mpr (hn.sublist (List.filter_sublist.map reference))
    have hmap := horder.map (f := some) fun _ _ he => Option.some.inj he
    rwa [List.map_map] at hmap
  rw [← hfound] at hsome
  have hne : (group first members).Pairwise fun a b => a.index ≠ b.index :=
    (List.pairwise_map.mp hsome).imp fun hab he => hab (by rw [he])
  refine ⟨List.pairwise_map.mpr (((le_group first members).and hne).imp ?_), order, hperm,
    List.forall₂_map_right_iff.mpr horder⟩
  rintro a b ⟨hle, hne⟩
  exact UInt32.lt_iff_toNat_lt.mp (UInt32.lt_of_le_of_ne hle hne)

end

end ClassDef

end Dalvik
