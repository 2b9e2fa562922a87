/-
# Handles of another body

A handle is the number of a slot and a count of removals.  It does not say which body issued it, so
a body tells the handle of another body from its own by these two numbers and by nothing else: it
refuses the handle if it has no such slot, or if the two slots, here and there, have not seen the
same number of removals modulo 2 ^ 32.  Otherwise the handle names an instruction of the body, and
every call takes it for that one.

So whether a handle is refused depends on the runs of both bodies.  Every body is what a run leaves
of the empty one: a body of instructions is what pushing them leaves, by `ofInstructions_eq`.

* `refuses_iff_not_live`: all calls that are given a handle agree;
* `generation?_of_run`: what a run from nothing makes of the count of a slot;
* `foreign_handle_refused_iff`: the main statement;
* `foreignHandles_are_taken`: two bodies of one instruction each mistake their handles.
-/
import Mathlib.Data.Nat.ModEq
import Dalvik.Proofs.Body.Generations

namespace Dalvik

namespace Body

/-! ## 1. Calls that are given a handle -/

/-- Every call that is given the handle fails because the handle is not found, and leaves the body.
The bounds of a range need its first and its last instruction, adding a range all of its handles. -/
structure Refuses (b : Body) (h : Handle) : Prop where
  get : b.get h = .error .instructionNotFound
  offsetOf : b.offsetOf h = .error .instructionNotFound
  isInTry : b.isInTry h = .error .instructionNotFound
  tryBounds : ∀ t : TryRange, t.first = h ∨ t.last = h →
    b.tryBounds t = .error .instructionNotFound
  replaceOperand : ∀ operand,
    Editor.replaceOperand h operand b = .error .instructionNotFound b
  remove : Editor.remove h b = .error .instructionNotFound b
  addLabel : ∀ name, Editor.addLabel name h b = .error .instructionNotFound b
  retargetBranch : ∀ label, Editor.retargetBranch h label b = .error .instructionNotFound b
  addTry : ∀ t : TryRange, h ∈ t.handles → Editor.addTry t b = .error .instructionNotFound b

section Calls

variable {b : Body} {h : Handle}

theorem offsetOf_of_not_live (hn : ¬b.Live h) : b.offsetOf h = .error .instructionNotFound := by
  rw [offsetOf, get_of_not_live hn]
  rfl

/-- There is only one way in which asking for an offset fails. -/
theorem exists_offsetOf_or (b : Body) (h : Handle) :
    (∃ offset, b.offsetOf h = .ok offset) ∨ b.offsetOf h = .error .instructionNotFound := by
  by_cases hl : b.Live h
  · obtain ⟨i, hi⟩ := hl
    rw [offsetOf, hi]
    cases Line.offset? h b.lines with
    | some offset => exact .inl ⟨offset, rfl⟩
    | none => exact .inr rfl
  · exact .inr (offsetOf_of_not_live hl)

theorem tryBounds_of_not_live (hn : ¬b.Live h) {t : TryRange} (ht : t.first = h ∨ t.last = h) :
    b.tryBounds t = .error .instructionNotFound := by
  have hoffset := offsetOf_of_not_live hn
  rcases exists_offsetOf_or b t.first with ⟨start, hstart⟩ | hstart
  · rcases ht with rfl | rfl
    · rw [hstart] at hoffset
      cases hoffset
    · rw [tryBounds, hstart, hoffset]
      rfl
  · rw [tryBounds, hstart]
    rfl

theorem ask_get_of_not_live (hn : ¬b.Live h) :
    Editor.ask (·.get h) b = .error .instructionNotFound b :=
  Editor.ask_eq_error.mpr ⟨get_of_not_live hn, rfl⟩

/-- Of handles that are asked for one after the other, one that is not found is enough. -/
theorem forM_ask_get_of_not_live {handles : List Handle} (hm : h ∈ handles) (hn : ¬b.Live h) :
    (handles.forM fun h => do let _ ← Editor.ask (·.get h) : Editor Unit) b =
      .error .instructionNotFound b := by
  induction handles with
  | nil => cases hm
  | cons first rest ih =>
    by_cases hfirst : b.Live first
    · have hrest : h ∈ rest := by
        rcases List.mem_cons.mp hm with rfl | hrest
        · exact absurd hfirst hn
        · exact hrest
      obtain ⟨i, hi⟩ := hfirst
      have hask : Editor.ask (·.get first) b = .ok i b := Editor.ask_eq_ok.mpr ⟨hi, rfl⟩
      refine stateBind_eq_error.mpr (.inr ⟨(), b, ?_, ih hrest⟩)
      exact stateBind_eq_ok.mpr ⟨i, b, hask, rfl⟩
    · refine stateBind_eq_error.mpr (.inl ?_)
      exact stateBind_eq_error.mpr (.inl (ask_get_of_not_live hfirst))

theorem refuses_of_not_live (hn : ¬b.Live h) : b.Refuses h := by
  have hfirst {α : Type} (next : Instruction → Editor α) :
      (Editor.ask (·.get h) >>= next) b = .error .instructionNotFound b :=
    stateBind_eq_error.mpr (.inl (ask_get_of_not_live hn))
  have hoffset := offsetOf_of_not_live hn
  exact
    { get := get_of_not_live hn
      offsetOf := hoffset
      isInTry := by rw [isInTry, hoffset]; rfl
      tryBounds := fun t => tryBounds_of_not_live hn
      replaceOperand := fun operand => hfirst _
      remove := hfirst _
      addLabel := fun name => hfirst _
      retargetBranch := fun label => hfirst _
      addTry := fun t ht =>
        stateBind_eq_error.mpr (.inl (forM_ask_get_of_not_live ht hn)) }

/-- **The calls agree**: a handle is refused by all of them exactly if it names no instruction. -/
theorem refuses_iff_not_live : b.Refuses h ↔ ¬b.Live h := by
  constructor
  · rintro hr ⟨i, hi⟩
    rw [hr.get] at hi
    cases hi
  · exact refuses_of_not_live

end Calls

/-! ## 2. Slots that a run makes -/

section New

variable {b b' : Body} {e : Edit} {issued : List Handle} {k : Nat}

/-- Nothing is removed from a slot that is not there yet. -/
theorem removesFrom_of_size_le (hb : b.Sound) (hk : b.slots.size ≤ k) :
    e.removesFrom k b = false := by
  cases hrun : e.perform b with
  | error cause b' => exact Edit.removesFrom_of_error hrun
  | ok issued b' =>
    rw [Edit.removesFrom_of_ok hrun, beq_eq_false_iff_ne]
    cases hb.effect hrun with
    | @removed h i pre post hi ho =>
      have hlt := index_lt ⟨i, hi⟩
      intro hsame
      obtain rfl := Option.some.inj hsame
      omega
    | replaced he hi hc hw =>
      rw [Edit.removedSlot?_of_operandOf? he]
      simp
    | _ => simp [Edit.removedSlot?]

/-- A slot begins with no removals. -/
theorem Effect.generation?_new (he : Effect b e issued b') (hk : b.slots.size ≤ k)
    (hk' : k < b'.slots.size) : b'.generation? k = some 0 := by
  cases he with
  | pushed i =>
    have hsize : k < b.slots.size + 1 := by simpa [push] using hk'
    obtain rfl : k = b.slots.size := by omega
    simp [Body.generation?, push]
  | @removed h i pre post hi ho =>
    rw [removed_size] at hk'
    have hnew : k ∈ List.range' b.slots.size (i.width - 1) := List.mem_range'_1.mpr ⟨hk, hk'⟩
    rw [Body.generation?, removed_slots_of_ge b h i.width pre post hnew]
    rfl
  | replaced hop hi hc hw =>
    rw [Editor.replaced, Array.size_modify] at hk'
    omega
  | labelled hl hn => exact absurd hk' (Nat.not_lt.mpr hk)
  | guarded hl => exact absurd hk' (Nat.not_lt.mpr hk)

theorem generation?_after_one_new (hb : b.Sound) (hk : b.slots.size ≤ k)
    (hk' : k < (e.after b).slots.size) : (e.after b).generation? k = some 0 := by
  cases hrun : e.perform b with
  | ok issued b' =>
    rw [Edit.after_of_ok hrun] at hk' ⊢
    exact (hb.effect hrun).generation?_new hk hk'
  | error cause b' =>
    rw [Edit.after_of_error hrun] at hk'
    omega

/-- **A slot that a run makes counts the removals of the run.**  By induction on the run: up to the
call that makes the slot nothing can be removed from it, and from there on it counts. -/
theorem generation?_after_new (hb : b.Anchored) (hk : b.slots.size ≤ k) {rest : List Edit}
    (hk' : k < (b.after rest).slots.size) :
    (b.after rest).generation? k = some (UInt32.ofNat (b.removals k rest)) := by
  induction rest generalizing b with
  | nil => exact absurd hk' (Nat.not_lt.mpr hk)
  | cons e rest ih =>
    have ha := (after_keeps_one hb e).1
    have hcount : b.removals k (e :: rest) = (e.after b).removals k rest := by
      rw [removals, removesFrom_of_size_le hb.sound hk, if_neg Bool.false_ne_true, Nat.zero_add]
    rw [hcount]
    rcases Nat.lt_or_ge k (e.after b).slots.size with hmade | hlater
    · have hrest := generation?_after ha hmade rest
      rw [generation?_after_one_new hb.sound hk hmade, Option.map_some, UInt32.zero_add] at hrest
      exact hrest
    · exact ih ha hlater hk'

end New

theorem generation?_of_run {edits : List Edit} {k : Nat}
    (hk : k < (({} : Body).after edits).slots.size) :
    (({} : Body).after edits).generation? k =
      some (UInt32.ofNat (removals k {} edits)) :=
  generation?_after_new empty_anchored (Nat.zero_le k) hk

/-- The handles of a body are its slots with the removals that they have seen. -/
theorem live_of_run_iff {edits : List Edit} {h : Handle} :
    (({} : Body).after edits).Live h ↔
      h.index < (({} : Body).after edits).slots.size ∧
        h.generation = UInt32.ofNat (removals h.index {} edits) := by
  have hsound := (after_keeps empty_anchored edits).1.sound
  rw [hsound.live_iff_generation?]
  constructor
  · intro hg
    have hk : h.index < (({} : Body).after edits).slots.size :=
      index_lt (hsound.live_iff_generation?.mpr hg)
    rw [generation?_of_run hk] at hg
    exact ⟨hk, (Option.some.inj hg).symm⟩
  · rintro ⟨hk, hg⟩
    rw [generation?_of_run hk, hg]

/-! ## 3. Two bodies -/

/-- Counts of 32 bits are the same if the numbers are, modulo 2 ^ 32. -/
theorem ofNat_eq_ofNat_iff (m n : Nat) : UInt32.ofNat m = UInt32.ofNat n ↔ m ≡ n [MOD 2 ^ 32] := by
  rw [← UInt32.toNat_inj, UInt32.toNat_ofNat', UInt32.toNat_ofNat', Nat.ModEq]

/-- A call that succeeds at the end of a run is the last of a longer run. -/
theorem after_concat {edits : List Edit} {e : Edit} {b b' : Body} {issued : List Handle}
    (hrun : e.perform (b.after edits) = .ok issued b') : b.after (edits ++ [e]) = b' := by
  rw [after, List.foldl_append]
  exact Edit.after_of_ok hrun

/-- **A handle of another body is refused by its two numbers only.**  Let `own` be the run of a body
and `other` that of another one, in which the call `e` issues a handle.  All calls of the first body
refuse the handle, and leave the body, exactly if it has no slot of that number, or its slot has not
seen as many removals, modulo 2 ^ 32, as the slot of the other body had when the handle was issued.
Otherwise the handle is one under which the first body lists an instruction of its own, and the
calls find that instruction. -/
theorem foreign_handle_refused_iff (own : List Edit) {other : List Edit} {e : Edit}
    {issued : List Handle} {b' : Body} {h : Handle}
    (hrun : e.perform (({} : Body).after other) = .ok issued b')
    (hh : h ∈ issued) :
    let b := ({} : Body).after own
    let coincides := h.index < b.slots.size ∧
      removals h.index {} own ≡ removals h.index {} (other ++ [e]) [MOD 2 ^ 32]
    (b.Refuses h ↔ ¬coincides) ∧
    (coincides → b.Accepts h ∧ ∃ l ∈ b.lines, l.handle = h ∧ b.get h = .ok l.instruction) := by
  intro b coincides
  have hsound : b.Sound := (after_keeps empty_anchored own).1.sound
  have hissued : b'.Live h :=
    ⟨_, ((after_keeps empty_anchored other).1.sound.effect hrun).get_issued hh⟩
  rw [← after_concat hrun, live_of_run_iff] at hissued
  have hlive : b.Live h ↔ coincides := by
    rw [live_of_run_iff, hissued.2, ofNat_eq_ofNat_iff]
    exact and_congr_right fun _ => ⟨Nat.ModEq.symm, Nat.ModEq.symm⟩
  refine ⟨refuses_iff_not_live.trans (not_congr hlive), fun hsame => ?_⟩
  have hl := hlive.mpr hsame
  obtain ⟨l, hm, rfl⟩ := hsound.current_iff_live.mpr hl
  exact ⟨hl.accepts hsound, l, hm, rfl, get_of_mem_lines hm⟩

/-- The handle of a filler is taken in a body whose first constant has been removed as well, and in
no body without a slot or without a removal. -/
theorem foreign_handle_refused_iff_filler :
    let constant : Edit :=
      .push { opcode := 0x12, format := .f11n, registers := [0], operand := .literal 1 }
    ((({} : Body).after [.push .nop]).remove ⟨0, 0⟩).map (·.2) = .ok [⟨0, 1⟩] ∧
      (({} : Body).after [constant, .remove ⟨0, 0⟩]).Accepts ⟨0, 1⟩ ∧
      (({} : Body).after []).Refuses ⟨0, 1⟩ ∧ (({} : Body).after [constant]).Refuses ⟨0, 1⟩ := by
  intro constant
  have hissued : ((({} : Body).after [.push .nop]).remove ⟨0, 0⟩).map (·.2) = .ok [⟨0, 1⟩] := by
    decide +kernel
  obtain ⟨⟨b', issued⟩, hremove, rfl⟩ := map_eq_ok.mp hissued
  have hrun : (Edit.remove ⟨0, 0⟩).perform (({} : Body).after [.push .nop]) = .ok [⟨0, 1⟩] b' :=
    Editor.outcome_eq_ok.mp hremove
  have hh : (⟨0, 1⟩ : Handle) ∈ [(⟨0, 1⟩ : Handle)] := List.mem_singleton_self _
  obtain ⟨-, haccepts⟩ := foreign_handle_refused_iff [constant, .remove ⟨0, 0⟩] hrun hh
  obtain ⟨hempty, -⟩ := foreign_handle_refused_iff [] hrun hh
  obtain ⟨hkept, -⟩ := foreign_handle_refused_iff [constant] hrun hh
  refine ⟨hissued, (haccepts ⟨by decide +kernel, by decide +kernel⟩).1, hempty.mpr ?_,
    hkept.mpr ?_⟩
  · rintro ⟨hlt, -⟩
    cases hlt
  · rintro ⟨-, hmod⟩
    revert hmod
    decide +kernel

/-- **Foreign handles are taken**: it does not hold that a body refuses the handles of another. -/
theorem foreignHandles_are_taken :
    ¬∀ (own other : List Edit) (e : Edit) (issued : List Handle) (b' : Body) (h : Handle),
      e.perform (({} : Body).after other) = .ok issued b' → h ∈ issued →
        (({} : Body).after own).Refuses h := by
  intro hall
  have hrun : (Edit.push .nop).perform (({} : Body).after []) =
      .ok [⟨0, 0⟩] ((Edit.push .nop).after {}) := rfl
  have hrefuses := hall [.push .nop] [] _ _ _ ⟨0, 0⟩ hrun (List.mem_singleton_self _)
  have hget : (({} : Body).after [.push .nop]).get ⟨0, 0⟩ = .ok .nop := rfl
  rw [hrefuses.get] at hget
  cases hget

end Body

end Dalvik
