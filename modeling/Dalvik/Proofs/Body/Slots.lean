/-
# Slots and their offsets

In a sound body the program goes through every slot once, and every slot has an instruction.  Then
the offset of a live handle depends on its slot alone: it is the sum of the widths of the slots that
come before that slot in the program.  What edits do to offsets is said about slots, and handles,
labels and try ranges inherit it.
-/
import Mathlib.Algebra.GroupWithZero.Nat
import Dalvik.Body.Try
import Dalvik.Proofs.Outcome

namespace Dalvik

/-! ## 1. Sums of widths -/

/-- The sum of the widths before a number in a list. -/
def widthBefore (width : Nat → Nat) (k : Nat) : List Nat → Nat
  | [] => 0
  | j :: rest => if j = k then 0 else width j + widthBefore width k rest

theorem widthBefore_append_of_mem {width : Nat → Nat} {k : Nat} {before : List Nat}
    (h : k ∈ before) (rest : List Nat) :
    widthBefore width k (before ++ rest) = widthBefore width k before := by
  induction before with
  | nil => cases h
  | cons j before ih =>
    rw [List.cons_append, widthBefore, widthBefore]
    by_cases hj : j = k
    · rw [if_pos hj, if_pos hj]
    · rw [if_neg hj, if_neg hj, ih ((List.mem_cons.mp h).resolve_left (Ne.symm hj))]

theorem widthBefore_append_of_not_mem {width : Nat → Nat} {k : Nat} {before : List Nat}
    (h : k ∉ before) (rest : List Nat) :
    widthBefore width k (before ++ rest) =
      (before.map width).sum + widthBefore width k rest := by
  induction before with
  | nil => simp
  | cons j before ih =>
    rw [List.mem_cons, not_or] at h
    rw [List.cons_append, widthBefore, if_neg (Ne.symm h.1), ih h.2, List.map_cons,
      List.sum_cons, Nat.add_assoc]

theorem widthBefore_cons_self (width : Nat → Nat) (k : Nat) (rest : List Nat) :
    widthBefore width k (k :: rest) = 0 :=
  if_pos rfl

theorem widthBefore_congr {width width' : Nat → Nat} {k : Nat} {order : List Nat}
    (h : ∀ j ∈ order, width j = width' j) :
    widthBefore width k order = widthBefore width' k order := by
  induction order with
  | nil => rfl
  | cons j order ih =>
    rw [List.forall_mem_cons] at h
    rw [widthBefore, widthBefore, h.1, ih h.2]

namespace Body

/-! ## 2. Live handles -/

/-- A handle is live if it names an instruction. -/
def Live (b : Body) (h : Handle) : Prop :=
  ∃ i, b.get h = .ok i

theorem get_eq_ok {b : Body} {h : Handle} {i : Instruction} :
    b.get h = .ok i ↔ b.slots[h.index]? = some ⟨h.generation, some i⟩ := by
  unfold get
  cases hs : b.slots[h.index]? with
  | none => simp
  | some slot =>
    obtain ⟨generation, instruction?⟩ := slot
    by_cases hg : generation = h.generation
    · cases instruction? <;> simp [Option.filter_some, hg]
    · simp [Option.filter_some, hg]

theorem line?_eq_some {b : Body} {k : Nat} {l : Line} :
    b.line? k = some l ↔ l.handle.index = k ∧ b.get l.handle = .ok l.instruction := by
  obtain ⟨⟨index, generation⟩, i⟩ := l
  rw [get_eq_ok]
  unfold line?
  cases hs : b.slots[k]? with
  | none =>
    simp only [Option.bind_eq_bind, Option.bind_none, reduceCtorEq, false_iff]
    rintro ⟨rfl, h⟩
    rw [hs] at h
    cases h
  | some slot =>
    obtain ⟨generation', instruction?⟩ := slot
    constructor
    · intro h
      obtain ⟨slot, hslot, h⟩ := Option.bind_eq_some_iff.mp h
      obtain rfl := Option.some.inj hslot
      obtain ⟨j, rfl, h⟩ := Option.bind_eq_some_iff.mp h
      obtain ⟨⟨rfl, rfl⟩, rfl⟩ : (k = index ∧ generation' = generation) ∧ j = i := by
        simpa using h
      exact ⟨rfl, hs⟩
    · rintro ⟨rfl, h⟩
      obtain ⟨rfl, rfl⟩ : generation' = generation ∧ instruction? = some i := by
        simpa [hs] using h
      rfl

/-- The program lists instructions under their handles. -/
theorem get_of_mem_lines {b : Body} {l : Line} (hl : l ∈ b.lines) :
    b.get l.handle = .ok l.instruction := by
  obtain ⟨k, -, hk⟩ := List.mem_filterMap.mp hl
  exact (line?_eq_some.mp hk).2

/-! ## 3. Sound bodies -/

/-- The program goes through every slot once, and every slot has an instruction. -/
structure Sound (b : Body) : Prop where
  order_perm : b.order.toList.Perm (List.range b.slots.size)
  filled : ∀ {k : Nat} {slot : Slot}, b.slots[k]? = some slot → ∃ i, slot.instruction? = some i

/-- The width of the instruction of a slot. -/
def slotWidth (b : Body) (k : Nat) : Nat :=
  (b.slots[k]?.bind (·.instruction?)).elim 0 Instruction.width

/-- The number of code units before a slot. -/
def before (b : Body) (k : Nat) : Nat :=
  widthBefore b.slotWidth k b.order.toList

theorem slotWidth_of_get {b : Body} {h : Handle} {i : Instruction} (hi : b.get h = .ok i) :
    b.slotWidth h.index = i.width := by
  simp [slotWidth, get_eq_ok.mp hi]

theorem index_lt {b : Body} {h : Handle} (hl : b.Live h) : h.index < b.slots.size := by
  obtain ⟨i, hi⟩ := hl
  exact (Array.getElem?_eq_some_iff.mp (get_eq_ok.mp hi)).1

/-- Two live handles of one slot are the same. -/
theorem Live.eq_of_index {b : Body} {h h' : Handle} (hl : b.Live h) (hl' : b.Live h')
    (hindex : h.index = h'.index) : h = h' := by
  obtain ⟨i, hi⟩ := hl
  obtain ⟨i', hi'⟩ := hl'
  rw [get_eq_ok] at hi hi'
  rw [hindex, hi'] at hi
  obtain ⟨index, generation⟩ := h
  obtain ⟨index', generation'⟩ := h'
  simp_all

namespace Sound

variable {b : Body}

theorem mem_order (hb : b.Sound) {k : Nat} : k ∈ b.order.toList ↔ k < b.slots.size := by
  rw [hb.order_perm.mem_iff, List.mem_range]

theorem order_nodup (hb : b.Sound) : b.order.toList.Nodup :=
  hb.order_perm.nodup_iff.mpr List.nodup_range

theorem line?_isSome (hb : b.Sound) {k : Nat} (hk : k < b.slots.size) :
    ∃ l, b.line? k = some l ∧ l.width = b.slotWidth k := by
  have hs := Array.getElem?_eq_getElem hk
  obtain ⟨i, hi⟩ := hb.filled hs
  have hl : b.line? k = some ⟨⟨k, b.slots[k].generation⟩, i⟩ := by
    rw [line?_eq_some, get_eq_ok, hs, ← hi]
    exact ⟨rfl, rfl⟩
  refine ⟨_, hl, ?_⟩
  rw [slotWidth, hs, Option.bind_some, hi]
  rfl

end Sound

/-- The offset of a live handle among the lines of some slots. -/
theorem offset?_filterMap {b : Body} (hb : b.Sound) {h : Handle} (hl : b.Live h) :
    ∀ {order : List Nat}, (∀ k ∈ order, k < b.slots.size) → h.index ∈ order →
      Line.offset? h (order.filterMap b.line?) = some (widthBefore b.slotWidth h.index order)
  | k :: order, hk, hm => by
    obtain ⟨l, hline, hwidth⟩ := hb.line?_isSome (hk k (by simp))
    obtain ⟨hindex, hget⟩ := line?_eq_some.mp hline
    rw [List.filterMap_cons_some hline, Line.offset?, widthBefore]
    by_cases he : k = h.index
    · have hsame : l.handle = h := Live.eq_of_index ⟨_, hget⟩ hl (hindex.trans he)
      rw [if_pos hsame, if_pos he]
    · have hne : l.handle ≠ h := fun hsame => he (hindex ▸ congrArg Handle.index hsame)
      have hm := (List.mem_cons.mp hm).resolve_left (Ne.symm he)
      rw [if_neg hne, if_neg he, offset?_filterMap hb hl (fun j hj => hk j (by simp [hj])) hm,
        hwidth]
      rfl

/-- **Offsets depend on slots alone.** -/
theorem offsetOf_eq_ok {b : Body} (hb : b.Sound) {h : Handle} {offset : Nat} :
    b.offsetOf h = .ok offset ↔ b.Live h ∧ b.before h.index = offset := by
  constructor
  · intro ho
    obtain ⟨i, hi, ho⟩ := bind_eq_ok.mp ho
    have hl : b.Live h := ⟨i, hi⟩
    rw [lines, offset?_filterMap hb hl (fun k => hb.mem_order.mp) (hb.mem_order.mpr (index_lt hl))]
      at ho
    exact ⟨hl, pure_eq_ok.mp ho⟩
  · rintro ⟨hl, rfl⟩
    obtain ⟨i, hi⟩ := hl
    refine bind_eq_ok.mpr ⟨i, hi, ?_⟩
    rw [lines, offset?_filterMap hb ⟨i, hi⟩ (fun k => hb.mem_order.mp)
      (hb.mem_order.mpr (index_lt ⟨i, hi⟩))]
    rfl

theorem widthOf_filterMap {b : Body} (hb : b.Sound) :
    ∀ {order : List Nat}, (∀ k ∈ order, k < b.slots.size) →
      Line.widthOf (order.filterMap b.line?) = (order.map b.slotWidth).sum
  | [], _ => rfl
  | k :: order, hk => by
    obtain ⟨l, hline, hwidth⟩ := hb.line?_isSome (hk k (by simp))
    have ih := widthOf_filterMap hb fun j hj => hk j (List.mem_cons_of_mem k hj)
    rw [List.filterMap_cons_some hline, List.map_cons, List.sum_cons, ← ih, ← hwidth]
    rfl

theorem codeUnits_eq {b : Body} (hb : b.Sound) :
    b.codeUnits = (b.order.toList.map b.slotWidth).sum :=
  widthOf_filterMap hb fun _ => hb.mem_order.mp

end Body
end Dalvik
