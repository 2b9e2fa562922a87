/-
# Encoding looks up every reference, and nothing else

Encoding an instruction fails for a reference without an entry only if the instruction holds such a
reference, and if the operand fits the instruction, encoding succeeds only if every reference that
the instruction holds has an index.  Both hold of the code of a body.
-/
import Dalvik.Body.Basic
import Dalvik.Proofs.Instruction.Stream
import Dalvik.Proofs.Resolving

namespace Dalvik

namespace Instruction

/-! ## 1. Other failures -/

section Parts

variable {i : Instruction}

@[simp] theorem resolves_nibble {r : UInt16} : Resolves (nibble r) := by
  unfold nibble
  split <;> simp

@[simp] theorem resolves_byte {r : UInt16} : Resolves (byte r) := by
  unfold byte
  split <;> simp

@[simp] theorem resolves_shortIndex {n : UInt32} : Resolves (shortIndex n) := by
  unfold shortIndex
  split <;> simp

@[simp] theorem resolves_tableSize {n : Nat} : Resolves (tableSize n) := by
  unfold tableSize
  split <;> simp

@[simp] theorem resolves_operandMismatch {α : Type} :
    Resolves (i.operandMismatch : Except Error α) := by
  simp [operandMismatch]

@[simp] theorem resolves_registerMismatch {α : Type} {n : Nat} :
    Resolves (i.registerMismatch n : Except Error α) := by
  simp [registerMismatch]

@[simp] theorem resolves_noRegister : Resolves i.noRegister := by
  unfold noRegister
  split <;> simp

@[simp] theorem resolves_oneRegister : Resolves i.oneRegister := by
  unfold oneRegister
  split <;> simp

@[simp] theorem resolves_twoRegisters : Resolves i.twoRegisters := by
  unfold twoRegisters
  split <;> simp

@[simp] theorem resolves_threeRegisters : Resolves i.threeRegisters := by
  unfold threeRegisters
  split <;> simp

@[simp] theorem resolves_literal {bits : Nat} : Resolves (i.literal bits) := by
  unfold literal
  split
  · split <;> simp
  · simp

@[simp] theorem resolves_branch {bits : Nat} : Resolves (i.branch bits) := by
  unfold branch
  split
  · split <;> simp
  · simp

@[simp] theorem resolves_highLiteral : Resolves i.highLiteral := by
  rw [highLiteral, resolves_bind]
  refine ⟨resolves_literal, fun v _ => ?_⟩
  split <;> simp

@[simp] theorem resolves_packedRegisters : Resolves i.packedRegisters := by
  unfold packedRegisters
  split
  · simp
  · have h : Resolves (i.registers.mapM nibble) := resolves_mapM fun _ _ => resolves_nibble
    simp [h]

@[simp] theorem resolves_registerRange : Resolves i.registerRange := by
  unfold registerRange
  dsimp only
  split
  · simp
  · split <;> simp

end Parts

/-! ## 2. References -/

section References

variable {ix : Indexer} {i : Instruction}

theorem resolves_indexInto {expected : Option ReferenceKind} {r : Reference}
    (h : Resolves (ix r)) : Resolves (i.indexInto ix expected r) := by
  unfold indexInto
  split
  · exact h
  · simp

theorem resolves_firstIndex (h : ∀ r ∈ i.references, Resolves (ix r)) :
    Resolves (i.firstIndex ix) := by
  unfold firstIndex
  split
  case h_1 r ho => exact resolves_indexInto (h r (by simp [references, ho]))
  case h_2 r _ ho => exact resolves_indexInto (h r (by simp [references, ho]))
  case h_3 => simp

theorem resolves_secondIndex (h : ∀ r ∈ i.references, Resolves (ix r)) :
    Resolves (i.secondIndex ix) := by
  unfold secondIndex
  split
  case h_1 r ho => exact resolves_indexInto (h r (by simp [references, ho]))
  case h_2 => simp

/-- **An instruction** fails for a reference without an entry only by one that it holds. -/
theorem resolves_encode (h : ∀ r ∈ i.references, Resolves (ix r)) : Resolves (i.encode ix) := by
  have h₁ := resolves_firstIndex h
  have h₂ := resolves_secondIndex h
  unfold encode
  split
  case h_27 =>
    split
    · simp
    · simp
  case h_28 =>
    split
    · split <;> simp
    · simp
  case h_29 =>
    split
    · split
      · simp
      · dsimp only
        split <;> simp
    · simp
  all_goals simp [h₁, h₂]

/-- A payload holds no reference. -/
theorem references_of_payload (hf : i.fits i.operand = true) (hp : i.format.isPayload = true) :
    i.references = [] := by
  unfold fits at hf
  unfold references
  split at hf <;> simp_all [Format.isPayload]

/-- **The references of an encoded instruction** have indices, if the operand fits. -/
theorem ok_of_encode {units : List UInt16} (hf : i.fits i.operand = true)
    (h : i.encode ix = .ok units) : ∀ r ∈ i.references, ∃ n, ix r = .ok n := by
  intro r hr
  have hp : i.format.isPayload = false := by
    by_contra hp
    rw [references_of_payload hf (by simpa using hp)] at hr
    exact List.not_mem_nil hr
  obtain ⟨high, tail, hl, -⟩ := layout_of_encode hp h
  obtain ⟨o, ho⟩ := hl.resolves hf
  unfold references at hr
  split at hr
  case h_1 s hop =>
    rw [hop] at ho
    obtain ⟨n, hn, -⟩ := bind_eq_ok.mp ho
    exact ⟨n, by rwa [List.mem_singleton.mp hr]⟩
  case h_2 callee other hop =>
    rw [hop] at ho
    obtain ⟨m, hm, ho⟩ := bind_eq_ok.mp ho
    obtain ⟨n, hn, -⟩ := bind_eq_ok.mp ho
    rcases List.mem_cons.mp hr with rfl | hr
    · exact ⟨m, hm⟩
    · exact ⟨n, by rwa [List.mem_singleton.mp hr]⟩
  case h_3 => exact (List.not_mem_nil hr).elim

end References

end Instruction

/-! ## 3. Code -/

namespace Body

variable {ix : Indexer} {b : Body}

theorem resolves_emitAll {code : List Instruction}
    (h : ∀ i ∈ code, ∀ r ∈ i.references, Resolves (ix r)) :
    StepResolves (CodeWriter.emitAll ix code) := by
  induction code with
  | nil => exact .pure _
  | cons i rest ih =>
    have hrest := ih fun j hj => h j (List.mem_cons_of_mem _ hj)
    have hi := Instruction.resolves_encode (h i (List.mem_cons_self ..))
    refine .bind ?_ fun _ _ _ _ => hrest
    rw [CodeWriter.emit_eq]
    split
    case h_1 => exact .modify _
    case h_2 e he => exact .throw (resolves_error.mp (he ▸ hi))

/-- The code of a body fails for a reference without an entry only by one that it holds. -/
theorem resolves_encode (h : ∀ i ∈ b.instructions, ∀ r ∈ i.references, Resolves (ix r)) :
    Resolves (b.encode ix) := by
  unfold Body.encode
  split
  case h_1 => exact resolves_ok
  case h_2 e t he =>
    intro what hw
    rw [Except.error.injEq] at hw
    exact resolves_emitAll h _ what t (hw ▸ he)

/-- The references of encoded code have indices, if the operands fit. -/
theorem ok_of_encode {units : List UInt16}
    (hf : ∀ i ∈ b.instructions, i.fits i.operand = true) (h : b.encode ix = .ok units) :
    ∀ i ∈ b.instructions, ∀ r ∈ i.references, ∃ n, ix r = .ok n := by
  unfold Body.encode at h
  split at h
  case h_2 => cases h
  case h_1 out he =>
    obtain ⟨parts, hp, -⟩ := CodeWriter.emitAll_eq_ok.mp he
    intro i hi
    obtain ⟨units, hu⟩ := ok_of_mapM hp i hi
    exact Instruction.ok_of_encode (hf i hi) hu

end Body

end Dalvik
