/-
# Bodies that can be reached

A body begins empty, as a list of instructions or as code units, and any calls may follow, those
that fail among them.  Whatever the calls were, the program goes through every slot once, every slot
has an instruction, and each handle that a label or a range holds is one under which the program
lists an instruction.

So a question about a label, a stored range or a live instruction is never answered with
`instructionNotFound`; what `resolveTries` refuses, it refuses for the shape of a range.

Main statement: `stored_handles_current`.
-/
import Dalvik.Proofs.Body.Runs

namespace Dalvik

namespace Body

/-! ## 1. Reachable bodies -/

/-- The bodies that calls lead to. -/
inductive Reachable : Body → Prop
  | empty : Reachable {}
  | ofInstructions (code : List Instruction) : Reachable (ofInstructions code)
  | ofUnits {units : List UInt16} {b : Body} (h : ofUnits units = .ok b) : Reachable b
  | edit {b : Body} (hb : Reachable b) (e : Edit) : Reachable (e.after b)

theorem anchored_ofInstructions (code : List Instruction) : (ofInstructions code).Anchored := by
  rw [ofInstructions_eq]
  exact (after_keeps empty_anchored _).1

/-- **Every body is anchored.**  By induction on the calls; the step is `after_keeps_one`. -/
theorem Reachable.anchored {b : Body} (hb : b.Reachable) : b.Anchored := by
  induction hb with
  | empty => exact empty_anchored
  | ofInstructions code => exact anchored_ofInstructions code
  | ofUnits h =>
    obtain ⟨code, -, rfl⟩ := map_eq_ok.mp h
    exact anchored_ofInstructions code
  | edit _ e ih => exact (after_keeps_one ih e).1

theorem Reachable.after {b : Body} (hb : b.Reachable) (edits : List Edit) :
    (b.after edits).Reachable := by
  induction edits generalizing b with
  | nil => exact hb
  | cons e edits ih => exact ih (hb.edit e)

/-! ## 2. Handles that the program lists -/

/-- The program lists an instruction under this handle. -/
def Current (b : Body) (h : Handle) : Prop :=
  ∃ l ∈ b.lines, l.handle = h

theorem Sound.current_iff_live {b : Body} (hb : b.Sound) {h : Handle} :
    b.Current h ↔ b.Live h := by
  constructor
  · rintro ⟨l, hl, rfl⟩
    exact ⟨l.instruction, get_of_mem_lines hl⟩
  · rintro ⟨i, hi⟩
    have hk : h.index ∈ b.order.toList := hb.mem_order.mpr (index_lt ⟨i, hi⟩)
    have hline : b.line? h.index = some ⟨h, i⟩ := line?_eq_some.mpr ⟨rfl, hi⟩
    exact ⟨⟨h, i⟩, List.mem_filterMap.mpr ⟨h.index, hk, hline⟩, rfl⟩

/-! ## 3. Questions that are answered -/

theorem exists_label? {b : Body} {name : String} (hm : name ∈ b.labels.map (·.1)) :
    ∃ h, b.label? name = some h := by
  obtain ⟨label, hmem, rfl⟩ := List.mem_map.mp hm
  cases hl : b.label? label.1 with
  | some h => exact ⟨h, rfl⟩
  | none => simpa using List.lookup_eq_none_iff.mp hl label hmem

section Questions

variable {b : Body}

/-- Whether a range covers a code unit: those from the start of its first instruction to the end of
its last. -/
def covers (b : Body) (offset : Nat) (t : TryRange) : Bool :=
  b.before t.first.index ≤ offset && offset < b.finish t.last.index

theorem Anchored.offsetInTry_eq (hb : b.Anchored) (offset : Nat) {tries : List TryRange}
    (ht : ∀ t ∈ tries, t ∈ b.tries) :
    b.offsetInTry offset tries = .ok (tries.any (b.covers offset)) := by
  induction tries with
  | nil => rfl
  | cons t tries ih =>
    rw [List.forall_mem_cons] at ht
    have hlast := hb.last_live ht.1
    have hpos := hlast.before_lt_finish
    have hcovers : (decide (b.before t.first.index ≤ offset) &&
        decide (offset ≤ b.finish t.last.index - 1)) = b.covers offset t := by
      rw [covers, Bool.eq_iff_iff]
      simp only [Bool.and_eq_true, decide_eq_true_eq]
      omega
    rw [Body.offsetInTry, hb.tryBounds ht.1, List.any_cons]
    simp only [bind, Except.bind, hcovers]
    cases b.covers offset t with
    | true => rfl
    | false => simpa using ih ht.2

/-- An instruction is guarded if a range covers the code unit at which it begins. -/
theorem Anchored.isInTry_eq (hb : b.Anchored) {h : Handle} (hl : b.Live h) :
    b.isInTry h = .ok (b.tries.any (b.covers (b.before h.index))) :=
  bind_eq_ok.mpr ⟨_, hl.offsetOf hb.sound, hb.offsetInTry_eq _ fun _ => id⟩

theorem Anchored.isInTry (hb : b.Anchored) {h : Handle} (hl : b.Live h) :
    ∃ guarded, b.isInTry h = .ok guarded :=
  ⟨_, hb.isInTry_eq hl⟩

theorem narrow32_ne_notFound (n : Nat) : Bytes.narrow32 n ≠ .error .instructionNotFound := by
  unfold Bytes.narrow32
  split <;> simp

theorem resolveHandlers_ne_notFound (hb : b.Sound) {handlers : List CatchHandler}
    (hl : ∀ c ∈ handlers, b.Live c.target) :
    b.resolveHandlers handlers ≠ .error .instructionNotFound := by
  induction handlers with
  | nil => simp [resolveHandlers]
  | cons c rest ih =>
    rw [List.forall_mem_cons] at hl
    rw [resolveHandlers, hl.1.offsetOf hb]
    refine bind_ne_error (by simp) fun offset _ => ?_
    refine bind_ne_error (narrow32_ne_notFound _) fun address _ => ?_
    split
    · exact bind_ne_error (ih hl.2) fun _ _ => pure_ne_error
    · exact pure_ne_error
    · simp [throw, throwThe, MonadExceptOf.throw]

theorem Anchored.resolveTry_ne_notFound (hb : b.Anchored) {t : TryRange} (ht : t ∈ b.tries) :
    b.resolveTry t ≠ .error .instructionNotFound := by
  have hhandlers : b.resolveHandlers t.handlers ≠ .error .instructionNotFound :=
    resolveHandlers_ne_notFound hb.sound fun _ => hb.target_live ht
  rw [resolveTry, hb.tryBounds ht]
  refine bind_ne_error (by simp) fun bounds _ => ?_
  -- each test throws a cause of its own
  dsimp only
  split
  · exact throw_bind_ne_error (by simp)
  split
  · exact throw_bind_ne_error (by simp)
  refine bind_ne_error (narrow32_ne_notFound _) fun address _ => ?_
  split
  · exact throw_bind_ne_error (by simp)
  · exact bind_ne_error hhandlers fun _ _ => pure_ne_error

theorem Anchored.resolveTries_ne_notFound (hb : b.Anchored) :
    b.resolveTries ≠ .error .instructionNotFound :=
  bind_ne_error (mapM_ne_error fun _ ht => hb.resolveTry_ne_notFound ht) fun _ _ => pure_ne_error

end Questions

/-! ## 4. Stored handles -/

/-- **Stored handles are current.**  However a body was reached, its program goes through every slot
once and every slot has an instruction; every label, and every start, end and handler of a stored
range, is a handle under which the program lists an instruction.  So a label has an offset, a stored
range has bounds, a live instruction is or is not guarded, and ranges are never refused because an
instruction was not found. -/
theorem stored_handles_current {b : Body} (hb : b.Reachable) :
    b.order.toList.Perm (List.range b.slots.size) ∧
    (∀ slot ∈ b.slots, ∃ i, slot.instruction? = some i) ∧
    (∀ name h, (name, h) ∈ b.labels → b.Current h) ∧
    (∀ t ∈ b.tries, b.Current t.first ∧ b.Current t.last ∧ ∀ c ∈ t.handlers, b.Current c.target) ∧
    (∀ name ∈ b.labels.map (·.1), ∃ offset, b.labelOffset name = .ok offset) ∧
    (∀ t ∈ b.tries, ∃ bounds, b.tryBounds t = .ok bounds) ∧
    (∀ h, b.Live h → ∃ guarded, b.isInTry h = .ok guarded) ∧
    b.resolveTries ≠ .error .instructionNotFound := by
  have ha := hb.anchored
  have hcurrent {t : TryRange} (ht : t ∈ b.tries) {h : Handle} (hh : h ∈ t.handles) :
      b.Current h := ha.sound.current_iff_live.mpr (ha.tries_live ht hh)
  refine ⟨ha.sound.order_perm, ?_, ?_, ?_, ?_, ?_, fun h => ha.isInTry, ha.resolveTries_ne_notFound⟩
  · intro slot hs
    obtain ⟨k, hk⟩ := Array.mem_iff_getElem?.mp hs
    exact ha.sound.filled hk
  · intro name h hm
    exact ha.sound.current_iff_live.mpr (ha.labels_live hm)
  · intro t ht
    refine ⟨hcurrent ht (mem_handles.mpr (.inl rfl)),
      hcurrent ht (mem_handles.mpr (.inr (.inl rfl))), ?_⟩
    intro c hc
    exact hcurrent ht (mem_handles.mpr (.inr (.inr ⟨c, hc, rfl⟩)))
  · intro name hm
    obtain ⟨h, hl⟩ := exists_label? hm
    exact ⟨_, ha.labelOffset hl⟩
  · intro t ht
    exact ⟨_, ha.tryBounds ht⟩

/-- A jump of two code units before the end of a method, labelled and guarded, then removed. -/
def guardedJump : Body :=
  let jump : Instruction :=
    { opcode := 0x29, format := .f20t, registers := [], operand := .branch 2 }
  let leave : Instruction :=
    { opcode := 0x0e, format := .f10x, registers := [], operand := .none }
  (ofInstructions [jump, leave]).after
    [.addLabel "start" ⟨0, 0⟩,
      .addTry { first := ⟨0, 0⟩, last := ⟨0, 0⟩, handlers := [⟨none, ⟨1, 0⟩⟩] },
      .remove ⟨0, 0⟩]

theorem stored_handles_current_guardedJump :
    guardedJump.Reachable ∧ guardedJump.labels = [("start", ⟨0, 1⟩)] ∧
      guardedJump.tries = [⟨⟨0, 1⟩, ⟨2, 0⟩, [⟨none, ⟨1, 0⟩⟩]⟩] ∧
        guardedJump.Current ⟨0, 1⟩ ∧ guardedJump.Current ⟨2, 0⟩ ∧ guardedJump.Current ⟨1, 0⟩ := by
  have hr : guardedJump.Reachable := (Reachable.ofInstructions _).after _
  have htries : guardedJump.tries = [⟨⟨0, 1⟩, ⟨2, 0⟩, [⟨none, ⟨1, 0⟩⟩]⟩] := by decide +kernel
  obtain ⟨-, -, -, ht, -⟩ := stored_handles_current hr
  obtain ⟨hfirst, hlast, hhandlers⟩ := ht _ (by rw [htries]; exact List.mem_singleton_self _)
  exact ⟨hr, by decide +kernel, htries, hfirst, hlast, hhandlers _ (List.mem_singleton_self _)⟩

end Body

end Dalvik
