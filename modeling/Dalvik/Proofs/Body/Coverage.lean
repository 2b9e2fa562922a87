/-
# Guarded instructions

An instruction is guarded if some range covers the code unit at which it begins.  Bounds are where
instructions begin and end, so a range covers all code units of an instruction or none, and covering
an instruction is to start at or before it and to end at or after it, in program order.  A range
that is resolved covers the same code units as the stored one.  When an instruction is removed,
stored ranges go on covering the code units that they covered.

* `Anchored.covers_iff`: covering by program order;
* `Anchored.covers_resolved`: covering by what a range is resolved to;
* `Anchored.covers_inside`, `any_covers_removed`: covering what takes the place of an instruction;
* `guarded_iff_covered`: the main statement.
-/
import Dalvik.Proofs.Body.Removal
import Dalvik.Proofs.Body.Resolution

namespace Dalvik

namespace Body

/-! ## 1. Covered instructions -/

section Covered

variable {b : Body} {t : TryRange} {h h' : Handle}

theorem any_congr {α : Type} {l : List α} {p q : α → Bool} (hpq : ∀ a ∈ l, p a = q a) :
    l.any p = l.any q := by
  induction l with
  | nil => rfl
  | cons a l ih =>
    rw [List.forall_mem_cons] at hpq
    rw [List.any_cons, List.any_cons, hpq.1, ih hpq.2]

theorem covers_eq_true {offset : Nat} :
    b.covers offset t = true ↔
      b.before t.first.index ≤ offset ∧ offset < b.finish t.last.index := by
  simp only [covers, Bool.and_eq_true, decide_eq_true_eq]

/-- **Covering by program order.** -/
theorem Anchored.covers_iff (hb : b.Anchored) (ht : t ∈ b.tries) (hl : b.Live h) :
    b.covers (b.before h.index) t = true ↔ b.AtOrBefore t.first h ∧ b.AtOrBefore h t.last := by
  have hfirst := hb.first_live ht
  have hlast := hb.last_live ht
  rw [covers_eq_true, hb.sound.atOrBefore_iff_le hfirst hl, hb.sound.atOrBefore_iff_lt hl hlast]

/-- **All code units of an instruction are covered, or none is.** -/
theorem Anchored.covers_inside (hb : b.Anchored) (ht : t ∈ b.tries) (hl : b.Live h) {offset : Nat}
    (hbegins : b.before h.index ≤ offset) (hends : offset < b.finish h.index) :
    b.covers offset t = b.covers (b.before h.index) t := by
  have hfirst := hb.first_live ht
  have hlast := hb.last_live ht
  rw [Bool.eq_iff_iff, hb.covers_iff ht hl, covers_eq_true]
  constructor
  · rintro ⟨hstart, hstop⟩
    exact ⟨(hb.sound.atOrBefore_iff_lt hfirst hl).mpr (by omega),
      (hb.sound.atOrBefore_iff_lt hl hlast).mpr (by omega)⟩
  · rintro ⟨hstart, hstop⟩
    have hbefore := (hb.sound.atOrBefore_iff_le hfirst hl).mp hstart
    have hfinish := hb.sound.finish_le_finish hl hlast hstop
    omega

end Covered

/-! ## 2. Resolved ranges -/

section Resolved

variable {b : Body} {t : TryRange} {r : ResolvedTry}

/-- **A range is resolved to the code units that it covers.** -/
theorem Anchored.covers_resolved (hb : b.Anchored) (ht : t ∈ b.tries)
    (hr : b.resolveTry t = .ok r) (offset : Nat) :
    b.covers offset t = true ↔
      r.start.toNat ≤ offset ∧ offset < r.start.toNat + r.count.toNat := by
  have hto := hb.resolvesTo ht hr
  have hfirst := (hb.first_live ht).offsetOf hb.sound
  have hlast := (hb.last_live ht).stopOf hb.sound
  rw [covers_eq_true, Except.ok.inj (hfirst.symm.trans hto.start),
    Except.ok.inj (hlast.symm.trans hto.stop)]

theorem Anchored.any_covers_resolved (hb : b.Anchored) {resolved : List ResolvedTry}
    (hr : b.resolveTries = .ok resolved) (offset : Nat) :
    b.tries.any (b.covers offset) = true ↔
      ∃ r ∈ resolved, r.start.toNat ≤ offset ∧ offset < r.start.toNat + r.count.toNat := by
  rw [List.any_eq_true]
  constructor
  · rintro ⟨t, ht, hcovers⟩
    obtain ⟨r, hrun⟩ := ok_of_resolveTries hr t ht
    exact ⟨r, (mem_of_resolveTries hr).mpr ⟨t, ht, hrun⟩,
      (hb.covers_resolved ht hrun offset).mp hcovers⟩
  · rintro ⟨r, hmem, hinside⟩
    obtain ⟨t, ht, hrun⟩ := (mem_of_resolveTries hr).mp hmem
    exact ⟨t, ht, (hb.covers_resolved ht hrun offset).mpr hinside⟩

end Resolved

/-! ## 3. Removed instructions -/

section Removed

variable {b : Body} {h : Handle} {i : Instruction} {pre post : List Nat}

/-- **Ranges go on covering what they covered.** -/
theorem any_covers_removed (hb : b.Anchored) (hi : b.get h = .ok i)
    (ho : b.order.toList = pre ++ h.index :: post) (offset : Nat) :
    (Editor.removed b h i.width pre post).tries.any
        ((Editor.removed b h i.width pre post).covers offset) = b.tries.any (b.covers offset) := by
  have htries : (Editor.removed b h i.width pre post).tries =
      b.tries.map (movedTry h h.next (Editor.lastFiller h b.slots.size i.width)) := rfl
  rw [htries, List.any_map]
  refine any_congr fun t ht => ?_
  have hfirst := hb.first_live ht
  have hlast := hb.last_live ht
  rw [Function.comp_apply, covers, covers, movedTry, moved_next_index,
    before_removed hb.sound hi ho (index_lt hfirst), finish_moved hb.sound hi ho hlast]

/-- An instruction that stays is guarded as before. -/
theorem isInTry_removed (hb : b.Anchored) (hi : b.get h = .ok i)
    (ho : b.order.toList = pre ++ h.index :: post) {h' : Handle} (hl : b.Live h') (hne : h' ≠ h) :
    (Editor.removed b h i.width pre post).isInTry h' = b.isInTry h' := by
  have ha := (removed_keeps hb hi ho).1
  rw [ha.isInTry_eq (live_removed ⟨i, hi⟩ i.width hl hne), hb.isInTry_eq hl,
    before_removed hb.sound hi ho (index_lt hl), any_covers_removed hb hi ho]

/-- A filler is guarded as the instruction was. -/
theorem isInTry_filler (hb : b.Anchored) (hi : b.get h = .ok i)
    (ho : b.order.toList = pre ++ h.index :: post) {f : Handle} (hf : f ∈ b.fillersOf h i) :
    (Editor.removed b h i.width pre post).isInTry f = b.isInTry h := by
  have ha := (removed_keeps hb hi ho).1
  obtain ⟨k, hk⟩ := List.mem_iff_getElem?.mp hf
  obtain ⟨hget, hoffset⟩ := offsetOf_filler hb.sound hi ho hk
  obtain ⟨hl, hbefore⟩ := (offsetOf_eq_ok ha.sound).mp hoffset
  have hwidth : k < i.width := by
    rw [← length_fillersOf b h i]
    exact (List.getElem?_eq_some_iff.mp hk).1
  have hends : b.before h.index + k < b.finish h.index := by
    rw [finish, slotWidth_of_get hi]
    omega
  rw [ha.isInTry_eq hl, hb.isInTry_eq ⟨i, hi⟩, any_covers_removed hb hi ho, hbefore]
  refine congrArg Except.ok (any_congr fun t ht => ?_)
  exact hb.covers_inside ht ⟨i, hi⟩ (Nat.le_add_right _ _) hends

end Removed

/-! ## 4. Guarded instructions -/

/-- **Guarded is covered, however it is looked at.**  In any body that calls lead to, a live
instruction is guarded exactly if some stored range starts at or before it and ends at or after it
in program order; and, if the ranges are resolved, exactly if one of them covers its offset.  When
an instruction is removed, every other is guarded as before, and its fillers are guarded as it
was. -/
theorem guarded_iff_covered {b : Body} (hb : b.Reachable) {h : Handle} (hl : b.Live h) :
    ∃ guarded offset, b.isInTry h = .ok guarded ∧ b.offsetOf h = .ok offset ∧
      (guarded = true ↔ ∃ t ∈ b.tries, b.AtOrBefore t.first h ∧ b.AtOrBefore h t.last) ∧
      (∀ resolved, b.resolveTries = .ok resolved → (guarded = true ↔
        ∃ r ∈ resolved, r.start.toNat ≤ offset ∧ offset < r.start.toNat + r.count.toNat)) ∧
      ∀ h', b.Live h' → ∃ b' fillers, b.remove h' = .ok (b', fillers) ∧
        (h ≠ h' → b'.isInTry h = .ok guarded) ∧
        (h = h' → ∀ f ∈ fillers, b'.isInTry f = .ok guarded) := by
  have ha := hb.anchored
  have hguarded := ha.isInTry_eq hl
  refine ⟨_, _, hguarded, hl.offsetOf ha.sound, ?_, ?_, ?_⟩
  · rw [List.any_eq_true]
    exact exists_congr fun t => and_congr_right fun ht => ha.covers_iff ht hl
  · exact fun resolved hr => ha.any_covers_resolved hr _
  · intro h' hl'
    obtain ⟨pre, post, ho⟩ := ha.sound.exists_split hl'
    obtain ⟨i, hi⟩ := hl'
    have hrun := ha.sound.remove_eq hi ho
    refine ⟨_, b.fillersOf h' i, Editor.outcome_eq_ok.mpr hrun, ?_, ?_⟩
    · intro hne
      rw [isInTry_removed ha hi ho hl hne]
      exact hguarded
    · rintro rfl f hf
      rw [isInTry_filler ha hi ho hf]
      exact hguarded

/-- A jump of two code units, an instruction that does nothing and the end of a method: a range for
the jump alone, and one from the instruction after it back to it. -/
def guardedTurn : Body :=
  let jump : Instruction := { opcode := 0x29, format := .f20t, operand := .branch 2 }
  let leave : Instruction := { opcode := 0x0e, format := .f10x }
  (ofInstructions [jump, .nop, leave]).after
    [.addTry ⟨⟨0, 0⟩, ⟨0, 0⟩, [⟨none, ⟨2, 0⟩⟩]⟩, .addTry ⟨⟨1, 0⟩, ⟨0, 0⟩, [⟨none, ⟨2, 0⟩⟩]⟩]

theorem guarded_iff_covered_guardedTurn :
    guardedTurn.isInTry ⟨0, 0⟩ = .ok true ∧ guardedTurn.isInTry ⟨1, 0⟩ = .ok false ∧
      ∃ b', guardedTurn.remove ⟨0, 0⟩ = .ok (b', [⟨0, 1⟩, ⟨3, 0⟩]) ∧
        b'.isInTry ⟨0, 1⟩ = .ok true ∧ b'.isInTry ⟨3, 0⟩ = .ok true ∧
          b'.isInTry ⟨1, 0⟩ = .ok false := by
  have hr : guardedTurn.Reachable := (Reachable.ofInstructions _).after _
  have hjump : guardedTurn.Live ⟨0, 0⟩ :=
    ⟨{ opcode := 0x29, format := .f20t, operand := .branch 2 }, by decide +kernel⟩
  have hnop : guardedTurn.Live ⟨1, 0⟩ := ⟨.nop, by decide +kernel⟩
  have hcovered : guardedTurn.isInTry ⟨0, 0⟩ = .ok true := by decide +kernel
  have hfree : guardedTurn.isInTry ⟨1, 0⟩ = .ok false := by decide +kernel
  obtain ⟨guarded, _, hg, -, -, -, hremove⟩ := guarded_iff_covered hr hjump
  obtain ⟨free, _, hf, -, -, -, hremove'⟩ := guarded_iff_covered hr hnop
  obtain rfl := Except.ok.inj (hcovered.symm.trans hg)
  obtain rfl := Except.ok.inj (hfree.symm.trans hf)
  obtain ⟨b', fillers, hrun, -, hfillers⟩ := hremove _ hjump
  obtain ⟨b'', fillers', hrun', hother, -⟩ := hremove' _ hjump
  obtain ⟨rfl, rfl⟩ := Prod.mk.inj (Except.ok.inj (hrun.symm.trans hrun'))
  have hissued : (guardedTurn.remove ⟨0, 0⟩).map (·.2) = .ok [⟨0, 1⟩, ⟨3, 0⟩] := by decide +kernel
  rw [hrun] at hissued
  obtain rfl := Except.ok.inj hissued
  exact ⟨hcovered, hfree, b', hrun, hfillers rfl _ (by simp), hfillers rfl _ (by simp),
    hother (by decide)⟩

end Body

end Dalvik
