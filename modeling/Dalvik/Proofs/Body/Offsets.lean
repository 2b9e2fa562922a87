/-
# Offsets after an edit

An edit adds slots and changes the instructions of slots, but never the number of code units before
a slot: a pushed instruction comes last, a replaced one keeps its width, and the fillers of a
removed one are together as wide as it was.

Main statements: `before_push`, `before_replaced` and `before_removed`.
-/
import Dalvik.Proofs.Body.Steps

namespace Dalvik

namespace Body

/-! ## 1. Slots after an edit -/

variable {b b' : Body}

theorem get_congr {h : Handle} (hs : b'.slots[h.index]? = b.slots[h.index]?) :
    b'.get h = b.get h := by
  rw [get, get, hs]

theorem live_congr {h : Handle} (hs : b'.slots[h.index]? = b.slots[h.index]?) :
    b'.Live h ↔ b.Live h := by
  rw [Live, Live, get_congr hs]

theorem slotWidth_congr {k : Nat} (hs : b'.slots[k]? = b.slots[k]?) :
    b'.slotWidth k = b.slotWidth k := by
  rw [slotWidth, slotWidth, hs]

section Push

variable (b) (i : Instruction)

theorem push_slots_of_lt {k : Nat} (hk : k < b.slots.size) :
    (b.push i).1.slots[k]? = b.slots[k]? := by
  rw [push, Array.getElem?_push_lt hk, Array.getElem?_eq_getElem hk]

theorem get_push : (b.push i).1.get (b.push i).2 = .ok i := by
  rw [get_eq_ok]
  simp [push]

theorem slotWidth_push : (b.push i).1.slotWidth b.slots.size = i.width :=
  slotWidth_of_get (get_push b i)

theorem order_push : (b.push i).1.order.toList = b.order.toList ++ [b.slots.size] := by
  simp [push]

end Push

theorem Sound.push (hb : b.Sound) (i : Instruction) : (b.push i).1.Sound where
  order_perm := by
    have hsize : (b.push i).1.slots.size = b.slots.size + 1 := by simp [Body.push]
    rw [order_push, hsize, List.range_succ]
    exact hb.order_perm.append_right _
  filled := by
    intro k slot hs
    simp only [Body.push, Array.getElem?_push] at hs
    split at hs
    · obtain rfl := Option.some.inj hs
      exact ⟨i, rfl⟩
    · exact hb.filled hs

theorem before_push (hb : b.Sound) (i : Instruction) {k : Nat} (hk : k < b.slots.size) :
    (b.push i).1.before k = b.before k := by
  rw [before, before, order_push, widthBefore_append_of_mem (hb.mem_order.mpr hk)]
  exact widthBefore_congr fun j hj => slotWidth_congr (push_slots_of_lt b i (hb.mem_order.mp hj))

theorem codeUnits_push (hb : b.Sound) (i : Instruction) :
    (b.push i).1.codeUnits = b.codeUnits + i.width := by
  rw [codeUnits_eq hb, codeUnits_eq (hb.push i), order_push, List.map_append, List.sum_append,
    List.map_singleton, List.sum_singleton, slotWidth_push]
  congr 2
  exact List.map_congr_left fun j hj =>
    slotWidth_congr (push_slots_of_lt b i (hb.mem_order.mp hj))

section Replace

variable {h : Handle} {i j : Instruction}

theorem replaced_slots (b : Body) (index k : Nat) (j : Instruction) :
    (Editor.replaced b index j).slots[k]? =
      if k = index then b.slots[k]?.map fun s => { s with instruction? := some j }
      else b.slots[k]? := by
  rw [Editor.replaced, Array.getElem?_modify]
  simp only [eq_comm (a := index)]

theorem slotWidth_replaced (hi : b.get h = .ok i) (hw : j.width = i.width) (k : Nat) :
    (Editor.replaced b h.index j).slotWidth k = b.slotWidth k := by
  by_cases hk : k = h.index
  · subst hk
    have hs := get_eq_ok.mp hi
    have hs' := replaced_slots b h.index h.index j
    rw [if_pos rfl, hs, Option.map_some] at hs'
    rw [slotWidth, slotWidth, hs, hs']
    exact hw
  · exact slotWidth_congr (by rw [replaced_slots, if_neg hk])

theorem get_replaced (hi : b.get h = .ok i) (j : Instruction) :
    (Editor.replaced b h.index j).get h = .ok j := by
  rw [get_eq_ok, replaced_slots, if_pos rfl, get_eq_ok.mp hi]
  rfl

theorem live_replaced (hi : b.get h = .ok i) {h' : Handle} (hl : b.Live h') :
    (Editor.replaced b h.index j).Live h' := by
  by_cases hk : h'.index = h.index
  · obtain rfl := hl.eq_of_index ⟨i, hi⟩ hk
    exact ⟨j, get_replaced hi j⟩
  · exact (live_congr (by rw [replaced_slots, if_neg hk])).mpr hl

theorem Sound.replaced (hb : b.Sound) (index : Nat) (j : Instruction) :
    (Editor.replaced b index j).Sound where
  order_perm := by
    have hsize : (Editor.replaced b index j).slots.size = b.slots.size := by
      simp [Editor.replaced]
    rw [hsize]
    exact hb.order_perm
  filled := by
    intro k slot hs
    rw [replaced_slots] at hs
    split at hs
    · obtain ⟨_, -, rfl⟩ := Option.map_eq_some_iff.mp hs
      exact ⟨j, rfl⟩
    · exact hb.filled hs

theorem before_replaced (hi : b.get h = .ok i) (hw : j.width = i.width) (k : Nat) :
    (Editor.replaced b h.index j).before k = b.before k :=
  widthBefore_congr fun k _ => slotWidth_replaced hi hw k

theorem codeUnits_replaced (hb : b.Sound) (hi : b.get h = .ok i) (hw : j.width = i.width) :
    (Editor.replaced b h.index j).codeUnits = b.codeUnits := by
  rw [codeUnits_eq hb, codeUnits_eq (hb.replaced h.index j)]
  exact congrArg List.sum (List.map_congr_left fun k _ => slotWidth_replaced hi hw k)

end Replace

/-! ## 2. Removed instructions -/

section Remove

variable {h : Handle} {i : Instruction} {pre post : List Nat}

theorem removed_slots_of_lt (b : Body) (h : Handle) (width : Nat) (pre post : List Nat) {k : Nat}
    (hk : k < b.slots.size) :
    (Editor.removed b h width pre post).slots[k]? =
      if k = h.index then b.slots[k]?.map Slot.retired else b.slots[k]? := by
  rw [Editor.removed, Array.getElem?_append_left (by simpa using hk), Array.getElem?_modify]
  simp only [eq_comm (a := h.index)]

theorem removed_slots_of_ge (b : Body) (h : Handle) (width : Nat) (pre post : List Nat) {k : Nat}
    (hk : k ∈ List.range' b.slots.size (width - 1)) :
    (Editor.removed b h width pre post).slots[k]? = some Editor.fillerSlot := by
  rw [List.mem_range'_1] at hk
  rw [Editor.removed, Array.getElem?_append_right (by simpa using hk.1), Array.getElem?_replicate,
    Array.size_modify, if_pos (by omega)]

/-- A slot after a removal is as it was, or holds a filler. -/
theorem removed_slots_cases {width k : Nat} {slot : Slot}
    (hs : (Editor.removed b h width pre post).slots[k]? = some slot) :
    b.slots[k]? = some slot ∨ slot.instruction? = some .nop := by
  rcases Nat.lt_or_ge k b.slots.size with hk | hk
  · rw [removed_slots_of_lt b h width pre post hk] at hs
    split at hs
    · obtain ⟨_, -, rfl⟩ := Option.map_eq_some_iff.mp hs
      exact .inr rfl
    · exact .inl hs
  · have hlt : k < b.slots.size + (width - 1) := by
      simpa [Editor.removed] using (Array.getElem?_eq_some_iff.mp hs).1
    rw [removed_slots_of_ge b h width pre post (List.mem_range'_1.mpr ⟨hk, hlt⟩)] at hs
    obtain rfl := Option.some.inj hs
    exact .inr rfl

theorem removed_order (b : Body) (h : Handle) (width : Nat) (pre post : List Nat) :
    (Editor.removed b h width pre post).order.toList =
      pre ++ (h.index :: List.range' b.slots.size (width - 1)) ++ post := by
  simp [Editor.removed]

theorem removed_size (b : Body) (h : Handle) (width : Nat) (pre post : List Nat) :
    (Editor.removed b h width pre post).slots.size = b.slots.size + (width - 1) := by
  simp [Editor.removed]

theorem Sound.exists_split (hb : b.Sound) (hl : b.Live h) :
    ∃ pre post, b.order.toList = pre ++ h.index :: post :=
  List.append_of_mem (hb.mem_order.mpr (index_lt hl))

/-- A removed slot stands once in the program. -/
theorem Sound.split_nodup (hb : b.Sound) (ho : b.order.toList = pre ++ h.index :: post) :
    h.index ∉ pre ∧ h.index ∉ post := by
  have hn := hb.order_nodup
  rw [ho, List.nodup_append, List.nodup_cons] at hn
  obtain ⟨-, ⟨hpost, -⟩, hdis⟩ := hn
  exact ⟨fun hm => hdis _ hm _ (List.mem_cons_self ..) rfl, hpost⟩

theorem Sound.remove_eq (hb : b.Sound) (hi : b.get h = .ok i)
    (ho : b.order.toList = pre ++ h.index :: post) :
    Editor.remove h b = .ok (h.next :: Editor.fillerHandles b.slots.size (i.width - 1))
      (Editor.removed b h i.width pre post) :=
  Editor.remove_eq hi (by rw [← ho]) (hb.split_nodup ho).1

/-- The slots before and after a removed one in the program are as they were. -/
theorem removed_slots_around (hb : b.Sound) (ho : b.order.toList = pre ++ h.index :: post)
    (width : Nat) {k : Nat} (hk : k ∈ pre ∨ k ∈ post) :
    (Editor.removed b h width pre post).slots[k]? = b.slots[k]? := by
  obtain ⟨hpre, hpost⟩ := hb.split_nodup ho
  have hlt : k < b.slots.size := by
    rw [← hb.mem_order, ho, List.mem_append, List.mem_cons]
    exact hk.imp_right .inr
  have hne : k ≠ h.index := by
    rintro rfl
    exact hk.elim hpre hpost
  rw [removed_slots_of_lt b h width pre post hlt, if_neg hne]

theorem slotWidth_removed_self (hl : b.Live h) (width : Nat) :
    (Editor.removed b h width pre post).slotWidth h.index = 1 := by
  obtain ⟨i, hi⟩ := hl
  rw [slotWidth, removed_slots_of_lt b h width pre post (index_lt ⟨i, hi⟩), if_pos rfl,
    get_eq_ok.mp hi]
  rfl

theorem slotWidth_removed_of_ne (width : Nat) {k : Nat} (hk : k < b.slots.size)
    (hne : k ≠ h.index) :
    (Editor.removed b h width pre post).slotWidth k = b.slotWidth k :=
  slotWidth_congr (by rw [removed_slots_of_lt b h width pre post hk, if_neg hne])

theorem slotWidth_removed_filler {width k : Nat}
    (hk : k ∈ List.range' b.slots.size (width - 1)) :
    (Editor.removed b h width pre post).slotWidth k = 1 := by
  rw [slotWidth, removed_slots_of_ge b h width pre post hk]
  rfl

theorem sum_fillers {width count : Nat} (hc : count ≤ width - 1) :
    ((List.range' b.slots.size count).map
      (Editor.removed b h width pre post).slotWidth).sum = count := by
  have hall : (List.range' b.slots.size count).map
      (Editor.removed b h width pre post).slotWidth = List.replicate count 1 := by
    rw [List.eq_replicate_iff]
    refine ⟨by simp, ?_⟩
    intro w hm
    obtain ⟨k, hk, rfl⟩ := List.mem_map.mp hm
    rw [List.mem_range'_1] at hk
    exact slotWidth_removed_filler (List.mem_range'_1.mpr (by omega))
  rw [hall, List.sum_replicate_nat, Nat.mul_one]

/-- The widths of the slots that take the place of a removed one. -/
theorem sum_place (hl : b.Live h) {width : Nat} (hw : 0 < width) :
    ((h.index :: List.range' b.slots.size (width - 1)).map
      (Editor.removed b h width pre post).slotWidth).sum = width := by
  rw [List.map_cons, List.sum_cons, slotWidth_removed_self hl, sum_fillers (Nat.le_refl _)]
  omega

/-- **A slot does not move when another instruction is removed.** -/
theorem before_removed (hb : b.Sound) (hi : b.get h = .ok i)
    (ho : b.order.toList = pre ++ h.index :: post) {k : Nat} (hk : k < b.slots.size) :
    (Editor.removed b h i.width pre post).before k = b.before k := by
  have hwidth (j : Nat) (hj : j ∈ pre ∨ j ∈ post) :
      (Editor.removed b h i.width pre post).slotWidth j = b.slotWidth j :=
    slotWidth_congr (removed_slots_around hb ho _ hj)
  have hsum : pre.map (Editor.removed b h i.width pre post).slotWidth = pre.map b.slotWidth :=
    List.map_congr_left fun j hj => hwidth j (.inl hj)
  have hmem := hb.mem_order.mpr hk
  rw [before, before, removed_order, ho]
  rw [ho] at hmem
  by_cases hkpre : k ∈ pre
  · rw [List.append_assoc, widthBefore_append_of_mem hkpre, widthBefore_append_of_mem hkpre]
    exact widthBefore_congr fun j hj => hwidth j (.inl hj)
  rw [List.append_assoc, widthBefore_append_of_not_mem hkpre, widthBefore_append_of_not_mem hkpre,
    hsum]
  by_cases hkh : k = h.index
  · rw [hkh, List.cons_append, widthBefore_cons_self, widthBefore_cons_self]
  · have hkfill : k ∉ h.index :: List.range' b.slots.size (i.width - 1) := by
      rw [List.mem_cons, List.mem_range'_1]
      omega
    rw [widthBefore_append_of_not_mem hkfill, sum_place ⟨i, hi⟩ i.width_pos, widthBefore,
      if_neg (Ne.symm hkh), slotWidth_of_get hi,
      widthBefore_congr fun j hj => hwidth j (.inr hj)]

theorem Sound.removed (hb : b.Sound)
    (ho : b.order.toList = pre ++ h.index :: post) :
    (Editor.removed b h i.width pre post).Sound where
  order_perm := by
    have hold := hb.order_perm
    rw [ho] at hold
    have hrange : List.range (b.slots.size + (i.width - 1)) =
        List.range b.slots.size ++ List.range' b.slots.size (i.width - 1) := by
      rw [List.range_add, List.range'_eq_map_range]
    rw [removed_order, removed_size, hrange, List.append_assoc, List.cons_append]
    refine List.Perm.trans ?_ (hold.append_right _)
    rw [List.append_assoc, List.cons_append]
    exact (List.perm_append_comm.cons _).append_left _
  filled := by
    intro k slot hs
    rcases removed_slots_cases hs with hs | hs
    · exact hb.filled hs
    · exact ⟨_, hs⟩

theorem codeUnits_removed (hb : b.Sound) (hi : b.get h = .ok i)
    (ho : b.order.toList = pre ++ h.index :: post) :
    (Editor.removed b h i.width pre post).codeUnits = b.codeUnits := by
  have hwidth (j : Nat) (hj : j ∈ pre ∨ j ∈ post) :
      (Editor.removed b h i.width pre post).slotWidth j = b.slotWidth j :=
    slotWidth_congr (removed_slots_around hb ho _ hj)
  rw [codeUnits_eq hb, codeUnits_eq (hb.removed ho), removed_order, ho, List.map_append,
    List.map_append, List.map_append, List.sum_append, List.sum_append, List.sum_append,
    sum_place ⟨i, hi⟩ i.width_pos, List.map_congr_left fun j hj => hwidth j (.inl hj),
    List.map_cons, List.sum_cons, List.map_congr_left fun j hj => hwidth j (.inr hj),
    slotWidth_of_get hi, Nat.add_assoc]

/-- The fillers in new slots follow the removed slot, one code unit after the other. -/
theorem before_filler (hb : b.Sound) (hi : b.get h = .ok i)
    (ho : b.order.toList = pre ++ h.index :: post) {j : Nat} (hj : j < i.width - 1) :
    (Editor.removed b h i.width pre post).before (b.slots.size + j) =
      b.before h.index + (j + 1) := by
  obtain ⟨hpre, -⟩ := hb.split_nodup ho
  have hk := index_lt ⟨i, hi⟩
  obtain ⟨rest, hrest⟩ : ∃ rest, i.width - 1 = j + (rest + 1) := ⟨i.width - 1 - j - 1, by omega⟩
  have horder : (Editor.removed b h i.width pre post).order.toList =
      (pre ++ h.index :: List.range' b.slots.size j) ++
        (b.slots.size + j) :: (List.range' (b.slots.size + j + 1) rest ++ post) := by
    rw [removed_order, hrest, ← List.range'_append_1, List.range'_succ]
    simp
  have hnot : b.slots.size + j ∉ pre ++ h.index :: List.range' b.slots.size j := by
    simp only [List.mem_append, List.mem_cons, List.mem_range'_1]
    rintro (hm | hm | hm)
    · have := hb.mem_order.mp (by rw [ho]; exact List.mem_append_left _ hm)
      omega
    · omega
    · omega
  have hself : (Editor.removed b h i.width pre post).before h.index = b.before h.index :=
    before_removed hb hi ho hk
  rw [before, removed_order, List.append_assoc, widthBefore_append_of_not_mem hpre,
    List.cons_append, widthBefore_cons_self, Nat.add_zero] at hself
  rw [before, horder, widthBefore_append_of_not_mem hnot, widthBefore_cons_self, List.map_append,
    List.sum_append, List.map_cons, List.sum_cons, slotWidth_removed_self ⟨i, hi⟩,
    sum_fillers (Nat.le_of_lt hj), hself]
  omega

/-- The end of the last filler is that of the removed instruction. -/
theorem end_lastFiller (hb : b.Sound) (hi : b.get h = .ok i)
    (ho : b.order.toList = pre ++ h.index :: post) :
    let b' := Editor.removed b h i.width pre post
    let last := Editor.lastFiller h b.slots.size i.width
    b'.before last.index + b'.slotWidth last.index = b.before h.index + b.slotWidth h.index := by
  intro b' last
  have hpos := i.width_pos
  rw [slotWidth_of_get hi]
  rcases hw : i.width - 1 with _ | count
  · have hlast : last = h.next := Editor.lastFiller_of_zero hw
    have hindex : h.next.index = h.index := rfl
    have hself : b'.before h.index = b.before h.index :=
      before_removed hb hi ho (index_lt ⟨i, hi⟩)
    have hone : b'.slotWidth h.index = 1 := slotWidth_removed_self ⟨i, hi⟩ _
    rw [hlast, hindex, hself, hone]
    omega
  · have hlast : last = { index := b.slots.size + count } := Editor.lastFiller_of_succ hw
    have hbefore : b'.before (b.slots.size + count) = b.before h.index + (count + 1) :=
      before_filler hb hi ho (by omega)
    have hone : b'.slotWidth (b.slots.size + count) = 1 :=
      slotWidth_removed_filler (by rw [hw, List.mem_range'_1]; omega)
    rw [hlast, hbefore, hone]
    omega

/-! ## 3. Handles after a removal -/

theorem get_removed_next (hi : b.get h = .ok i) (width : Nat) :
    (Editor.removed b h width pre post).get h.next = .ok .nop := by
  have hindex : h.next.index = h.index := rfl
  rw [get_eq_ok, hindex, removed_slots_of_lt b h width pre post (index_lt ⟨i, hi⟩), if_pos rfl,
    get_eq_ok.mp hi]
  rfl

theorem get_removed_filler {width k : Nat} (hk : k ∈ List.range' b.slots.size (width - 1)) :
    (Editor.removed b h width pre post).get { index := k } = .ok .nop :=
  get_eq_ok.mpr (removed_slots_of_ge b h width pre post hk)

/-- A live handle other than the removed one stays live. -/
theorem live_removed (hl : b.Live h) (width : Nat) {h' : Handle} (hl' : b.Live h')
    (hne : h' ≠ h) : (Editor.removed b h width pre post).Live h' := by
  have hindex : h'.index ≠ h.index := fun he => hne (hl'.eq_of_index hl he)
  refine (live_congr ?_).mpr hl'
  rw [removed_slots_of_lt b h width pre post (index_lt hl'), if_neg hindex]

theorem live_moved (hl : b.Live h) {width : Nat} {new h' : Handle} (hl' : b.Live h')
    (hnew : (Editor.removed b h width pre post).Live new) :
    (Editor.removed b h width pre post).Live (moved h new h') := by
  unfold moved
  split
  · exact hnew
  · exact live_removed hl width hl' ‹_›

theorem live_lastFiller (hi : b.get h = .ok i) :
    (Editor.removed b h i.width pre post).Live (Editor.lastFiller h b.slots.size i.width) := by
  rcases hw : i.width - 1 with _ | count
  · rw [Editor.lastFiller_of_zero hw]
    exact ⟨_, get_removed_next hi _⟩
  · rw [Editor.lastFiller_of_succ hw]
    exact ⟨_, get_removed_filler (by rw [hw, List.mem_range'_1]; omega)⟩

end Remove

end Body

end Dalvik
