/-
# Code units of a body

Instructions that were built or read are encoded in as many code units as they are wide, and stay so
whatever is edited: an operand is only replaced by one that was checked.  So the units of a body are
those of its lines, part after part, and the part of an instruction begins at its offset.

Main statements: `Made.shaped`, `encode_eq_ok`, `Line.length_of_encodeAll`, `lines_eq` and
`encode_split`.
-/
import Dalvik.Proofs.Body.Reachable
import Dalvik.Proofs.Instruction.Stream

namespace Dalvik

/-! ## 1. Instructions that programs come by -/

/-- An instruction that was built or read. -/
inductive Instruction.Made : Instruction → Prop
  | built {i : Instruction} (h : i.Built) : i.Made
  | read {offset width : Nat} {units : List UInt16} {i : Instruction}
      (h : decode offset units = .ok (i, width)) : i.Made

theorem Instruction.Made.regular_or_table {i : Instruction} (h : i.Made) :
    i.Regular ∨ i.IsTable := by
  cases h with
  | built h => exact h.regular_or_table
  | read h => exact (encode_of_decode h).1

namespace Body

/-- The bodies that calls lead to with such instructions. -/
inductive Made : Body → Prop
  | empty : Made {}
  | ofInstructions {code : List Instruction} (h : ∀ i ∈ code, i.Made) : Made (ofInstructions code)
  | ofUnits {units : List UInt16} {b : Body} (h : ofUnits units = .ok b) : Made b
  | edit {b : Body} (hb : Made b) (e : Edit) (hp : ∀ i, e = .push i → i.Made) : Made (e.after b)

theorem Made.reachable {b : Body} (hb : b.Made) : b.Reachable := by
  induction hb with
  | empty => exact .empty
  | ofInstructions h => exact .ofInstructions _
  | ofUnits h => exact .ofUnits h
  | edit _ e _ ih => exact ih.edit e

theorem Made.after {b : Body} (hb : b.Made) {edits : List Edit}
    (hp : ∀ e ∈ edits, ∀ i, e = .push i → i.Made) : (b.after edits).Made := by
  induction edits generalizing b with
  | nil => exact hb
  | cons e edits ih =>
    rw [List.forall_mem_cons] at hp
    exact ih (hb.edit e hp.1) hp.2

/-- Every slot holds an instruction that is regular, or a payload. -/
def Shaped (b : Body) : Prop :=
  ∀ ⦃k : Nat⦄ ⦃slot : Slot⦄ ⦃i : Instruction⦄, b.slots[k]? = some slot →
    slot.instruction? = some i → i.Regular ∨ i.IsTable

section Step

variable {b b' : Body} {e : Edit}

theorem Effect.shaped {issued : List Handle} (hs : b.Shaped) (he : Effect b e issued b')
    (hp : ∀ i, e = .push i → i.Regular ∨ i.IsTable) : b'.Shaped := by
  intro k slot j hk hj
  cases he with
  | pushed i =>
    simp only [push, Array.getElem?_push] at hk
    split at hk
    · obtain rfl := Option.some.inj hk
      obtain rfl := Option.some.inj hj
      exact hp i rfl
    · exact hs hk hj
  | removed hi ho =>
    rcases removed_slots_cases hk with hk | hn
    · exact hs hk hj
    · obtain rfl := Option.some.inj (hn.symm.trans hj)
      exact .inl Instruction.nop_regular
  | @replaced _ h i operand hop hi hc hw =>
    rw [replaced_slots] at hk
    split at hk
    · obtain ⟨_, -, rfl⟩ := Option.map_eq_some_iff.mp hk
      obtain rfl := Option.some.inj hj
      exact Instruction.regular_or_table_of_checkOperand (hs (get_eq_ok.mp hi) rfl) hc
    · exact hs hk hj
  | labelled hl hn => exact hs hk hj
  | guarded hl => exact hs hk hj

theorem shaped_after_one (hb : b.Sound) (hs : b.Shaped)
    (hp : ∀ i, e = .push i → i.Regular ∨ i.IsTable) : (e.after b).Shaped := by
  cases hrun : e.perform b with
  | ok issued b' =>
    rw [Edit.after_of_ok hrun]
    exact (hb.effect hrun).shaped hs hp
  | error cause b' =>
    rwa [Edit.after_of_error hrun]

theorem shaped_after (hb : b.Anchored) (hs : b.Shaped) {edits : List Edit}
    (hp : ∀ e ∈ edits, ∀ i, e = .push i → i.Regular ∨ i.IsTable) : (b.after edits).Shaped := by
  induction edits generalizing b with
  | nil => exact hs
  | cons e edits ih =>
    rw [List.forall_mem_cons] at hp
    exact ih (after_keeps_one hb e).1 (shaped_after_one hb.sound hs hp.1) hp.2

end Step

theorem empty_shaped : ({} : Body).Shaped := by
  intro k slot i hk
  simp at hk

theorem shaped_ofInstructions {code : List Instruction} (h : ∀ i ∈ code, i.Regular ∨ i.IsTable) :
    (ofInstructions code).Shaped := by
  rw [ofInstructions_eq]
  refine shaped_after empty_anchored empty_shaped fun e he i hpush => ?_
  obtain ⟨j, hj, rfl⟩ := List.mem_map.mp he
  obtain rfl := Edit.push.inj hpush
  exact h j hj

/-- **Editing keeps instructions in shape.**  By induction on the calls; the step is
`shaped_after_one`. -/
theorem Made.shaped {b : Body} (hb : b.Made) : b.Shaped := by
  induction hb with
  | empty => exact empty_shaped
  | ofInstructions h => exact shaped_ofInstructions fun i hi => (h i hi).regular_or_table
  | ofUnits h =>
    obtain ⟨code, hcode, rfl⟩ := map_eq_ok.mp h
    refine shaped_ofInstructions fun i hi => ?_
    obtain ⟨offset, rest, width, hread⟩ := Instruction.exists_decode_of_decodeUpTo hcode i hi
    exact (Instruction.encode_of_decode hread).1
  | edit hb e hp ih =>
    exact shaped_after_one hb.reachable.anchored.sound ih fun i hi => (hp i hi).regular_or_table

end Body

/-! ## 2. Units of lines -/

namespace Line

/-- The code units of instructions in program order. -/
def encodeAll (ix : Indexer) (lines : List Line) : Except Error (List UInt16) := do
  return (← lines.mapM fun l => l.instruction.encode ix).flatten

variable {ix : Indexer} {units : List UInt16} {l : Line} {lines front back : List Line}

theorem encodeAll_cons : encodeAll ix (l :: lines) = .ok units ↔
    ∃ part rest, l.instruction.encode ix = .ok part ∧ encodeAll ix lines = .ok rest ∧
      part ++ rest = units := by
  simp only [encodeAll, List.mapM_cons, bind_eq_ok, pure_eq_ok]
  constructor
  · rintro ⟨_, ⟨part, hpart, parts, hparts, rfl⟩, rfl⟩
    exact ⟨part, _, hpart, ⟨parts, hparts, rfl⟩, rfl⟩
  · rintro ⟨part, _, hpart, ⟨parts, hparts, rfl⟩, rfl⟩
    exact ⟨_, ⟨part, hpart, parts, hparts, rfl⟩, rfl⟩

theorem encodeAll_append : encodeAll ix (front ++ back) = .ok units ↔
    ∃ before after, encodeAll ix front = .ok before ∧ encodeAll ix back = .ok after ∧
      before ++ after = units := by
  simp only [encodeAll, List.mapM_append, bind_eq_ok, pure_eq_ok]
  constructor
  · rintro ⟨_, ⟨before, hbefore, after, hafter, rfl⟩, rfl⟩
    exact ⟨_, _, ⟨before, hbefore, rfl⟩, ⟨after, hafter, rfl⟩, List.flatten_append.symm⟩
  · rintro ⟨_, _, ⟨before, hbefore, rfl⟩, ⟨after, hafter, rfl⟩, rfl⟩
    exact ⟨_, ⟨before, hbefore, after, hafter, rfl⟩, List.flatten_append⟩

theorem length_of_encodeAll
    (hl : ∀ l ∈ lines, l.instruction.Regular ∨ l.instruction.IsTable)
    (h : encodeAll ix lines = .ok units) : units.length = widthOf lines := by
  induction lines generalizing units with
  | nil =>
    obtain rfl := pure_eq_ok.mp h
    rfl
  | cons l lines ih =>
    rw [List.forall_mem_cons] at hl
    obtain ⟨part, rest, hpart, hrest, rfl⟩ := encodeAll_cons.mp h
    rw [List.length_append, Instruction.length_of_encode hl.1 hpart, ih hl.2 hrest]
    rfl

end Line

/-! ## 3. Units of a body -/

namespace Body

section Lines

variable {b : Body}

theorem encode_eq_ok {ix : Indexer} {units : List UInt16} :
    b.encode ix = .ok units ↔ Line.encodeAll ix b.lines = .ok units := by
  simp only [Line.encodeAll, bind_eq_ok, pure_eq_ok]
  have hparts : b.lines.mapM (fun l => l.instruction.encode ix) =
      b.instructions.mapM (Instruction.encode ix) := by
    rw [instructions, List.mapM_map]
    rfl
  rw [hparts, encode]
  cases hrun : CodeWriter.emitAll ix b.instructions #[] with
  | ok u out =>
    obtain ⟨parts, hm, hout⟩ := CodeWriter.emitAll_eq_ok.mp hrun
    simp_all
  | error cause out =>
    simp only [reduceCtorEq, false_iff]
    rintro ⟨parts, hm, rfl⟩
    have hok : CodeWriter.emitAll ix b.instructions #[] = .ok () parts.flatten.toArray :=
      CodeWriter.emitAll_eq_ok.mpr ⟨parts, hm, by simp⟩
    rw [hok] at hrun
    cases hrun

theorem Shaped.of_mem_lines (hs : b.Shaped) {l : Line} (hl : l ∈ b.lines) :
    l.instruction.Regular ∨ l.instruction.IsTable :=
  hs (get_eq_ok.mp (get_of_mem_lines hl)) rfl

variable {h : Handle} {i : Instruction} {pre post : List Nat}

/-- The lines before and after that of a live handle. -/
theorem lines_eq (hi : b.get h = .ok i) (ho : b.order.toList = pre ++ h.index :: post) :
    b.lines = pre.filterMap b.line? ++ ⟨h, i⟩ :: post.filterMap b.line? := by
  have hline : b.line? h.index = some ⟨h, i⟩ := line?_eq_some.mpr ⟨rfl, hi⟩
  rw [lines, ho, List.filterMap_append, List.filterMap_cons_some hline]

/-- The lines before that of a live handle reach up to its offset. -/
theorem widthOf_front (hb : b.Sound) (ho : b.order.toList = pre ++ h.index :: post) :
    Line.widthOf (pre.filterMap b.line?) = b.before h.index := by
  have hlt : ∀ k ∈ pre, k < b.slots.size := fun k hk =>
    hb.mem_order.mp (by rw [ho]; exact List.mem_append_left _ hk)
  rw [widthOf_filterMap hb hlt, before, ho,
    widthBefore_append_of_not_mem (hb.split_nodup ho).1, widthBefore_cons_self, Nat.add_zero]

/-- **The units of a live instruction** stand from its offset on, between those of the lines before
it and those of the lines after it. -/
theorem encode_split (hb : b.Sound) (hs : b.Shaped) (hi : b.get h = .ok i)
    (ho : b.order.toList = pre ++ h.index :: post) {ix : Indexer} {units : List UInt16}
    (he : b.encode ix = .ok units) : ∃ before part after,
      Line.encodeAll ix (pre.filterMap b.line?) = .ok before ∧ i.encode ix = .ok part ∧
      Line.encodeAll ix (post.filterMap b.line?) = .ok after ∧ before ++ (part ++ after) = units ∧
      before.length = b.before h.index ∧ part.length = i.width := by
  have hshape : ∀ l ∈ b.lines, l.instruction.Regular ∨ l.instruction.IsTable :=
    fun l => hs.of_mem_lines
  rw [encode_eq_ok, lines_eq hi ho] at he
  rw [lines_eq hi ho, List.forall_mem_append, List.forall_mem_cons] at hshape
  obtain ⟨before, rest, hbefore, hrest, rfl⟩ := Line.encodeAll_append.mp he
  obtain ⟨part, after, hpart, hafter, rfl⟩ := Line.encodeAll_cons.mp hrest
  refine ⟨before, part, after, hbefore, hpart, hafter, rfl, ?_, ?_⟩
  · rw [Line.length_of_encodeAll hshape.1 hbefore, widthOf_front hb ho]
  · exact Instruction.length_of_encode hshape.2.1 hpart

end Lines

end Body

end Dalvik
