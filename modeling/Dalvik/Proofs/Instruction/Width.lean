/-
# The width of an instruction and the units written for it

The width of an instruction goes by its operand, and encoding goes by its format.  Where the fields
of an instruction are set freely the two can part: a format that has no operand does not look at the
one that is there, and if it is a table, the width counts what is never written.

Writing ends with the assertion that the two agree.  A checked build panics where they do not, and
the other build goes on.

* `length_of_encode_eq`: how many units are written for any instruction;
* `emitted_width_iff`: the main statement, for which instructions the width is what is written, and
  that a checked build panics on exactly the others;
* `strayTable_is_not_written`: an instruction on which it panics;
* `encodeChecked_eq_mapError`: none that is regular or a payload is such, and constructors and the
  decoder make no others.
-/
import Dalvik.Proofs.Instruction.Stream

namespace Dalvik

namespace Instruction

/-! ## 1. The units that are written -/

theorem width_of_table {i j : Instruction} (ho : j.operand = i.operand)
    (h : i.operand.isTable = true) : j.width = i.width := by
  cases hi : i.operand with
  | packedSwitch | sparseSwitch | arrayData => simp only [width, ho, hi]
  | _ =>
    rw [hi] at h
    cases h

/-- Of a payload only its table is written. -/
theorem encode_of_isPayload {ix : Indexer} {i : Instruction} {units : List UInt16}
    (hp : i.format.isPayload = true) (h : i.encode ix = .ok units) :
    i.operand.isTable = true ∧
      ∃ j : Instruction, j.IsTable ∧ j.operand = i.operand ∧ j.encode ix = .ok units := by
  cases hf : i.format <;> simp only [hf, Format.isPayload, Bool.false_eq_true] at hp
  case packedSwitch =>
    cases ho : i.operand <;> simp only [encode, hf, ho, operandMismatch, reduceCtorEq] at h
    exact ⟨rfl, _, .packedSwitch _ _, rfl, h⟩
  case sparseSwitch =>
    cases ho : i.operand <;> simp only [encode, hf, ho, operandMismatch, reduceCtorEq] at h
    exact ⟨rfl, _, .sparseSwitch _ _, rfl, h⟩
  case arrayData =>
    cases ho : i.operand <;> simp only [encode, hf, ho, operandMismatch, reduceCtorEq] at h
    exact ⟨rfl, _, .arrayData _ _, rfl, h⟩

/-- The format says how many units are written, and the table says it of a payload.  Nothing is
asked of the instruction but that it can be written. -/
theorem length_of_encode_eq {ix : Indexer} {i : Instruction} {units : List UInt16}
    (h : i.encode ix = .ok units) :
    units.length = if i.format.isPayload then i.width else i.format.width := by
  by_cases hp : i.format.isPayload = true
  · obtain ⟨ht, j, hj, ho, he⟩ := encode_of_isPayload hp h
    rw [if_pos hp, length_of_encode (.inr hj) he, width_of_table ho ht]
  · obtain ⟨high, tail, hl, rfl⟩ := layout_of_encode (by simpa using hp) h
    rw [if_neg hp, List.length_cons, hl.length_tail]

/-! ## 2. Tables that are not written -/

/-- A format that looks at its operand does not take a table for it. -/
theorem Layout.isBare_of_table {ix : Indexer} {i : Instruction} {high : Nat} {tail : List UInt16}
    (h : Layout ix i high tail) (ht : i.operand.isTable = true) : i.format.isBare = true := by
  have hrefers {k : Nat} {index : UInt32} : ¬ i.Refers ix k index := by
    rintro ⟨r, hr, -⟩
    unfold references at hr
    cases ho : i.operand <;> simp [ho, Operand.isTable] at hr ht
  cases h <;> simp_all [Format.isBare, Operand.isTable]

/-- Whether an instruction is as wide as a table that its format does not write.  Switches without
entries are no wider than the formats of two units. -/
def straysTable (i : Instruction) : Bool :=
  i.format.isBare && match i.operand with
    | .packedSwitch _ _ | .arrayData _ _ => true
    | .sparseSwitch keys _ => !keys.isEmpty || i.format.width != 2
    | _ => false

theorem straysTable_iff {i : Instruction} (hb : i.format.isBare = true) :
    i.straysTable = true ↔ i.width ≠ i.format.width := by
  have hw : i.format.width ≤ 3 := by
    cases hf : i.format <;> simp [hf, Format.isBare, Format.width] at hb ⊢
  unfold straysTable
  rw [hb, Bool.true_and]
  cases ho : i.operand with
  | packedSwitch firstKey targets => simp [width, ho]; omega
  | sparseSwitch keys targets =>
    cases keys with
    | nil => simpa [width, ho] using ne_comm
    | cons key keys => simp [width, ho]; omega
  | arrayData elementWidth data => simp [width, ho]; omega
  | _ => simp [width, ho]

theorem straysTable_eq_false_iff {ix : Indexer} {i : Instruction} {units : List UInt16}
    (h : i.encode ix = .ok units) : i.straysTable = false ↔ units.length = i.width := by
  rw [length_of_encode_eq h]
  by_cases hb : i.format.isBare = true
  · have hp : i.format.isPayload = false := by
      cases hf : i.format <;> simp [hf, Format.isBare, Format.isPayload] at hb ⊢
    have hiff := straysTable_iff hb
    rw [if_neg (by simp [hp]), ← Bool.not_eq_true, hiff, not_not, eq_comm]
  · have hs : i.straysTable = false := by
      simp [straysTable, hb]
    rw [hs]
    refine iff_of_true rfl ?_
    split
    case isTrue => rfl
    case isFalse hp =>
      obtain ⟨high, tail, hl, -⟩ := layout_of_encode (by simpa using hp) h
      have ht : i.operand.isTable = false := by
        by_contra ht
        exact hb (hl.isBare_of_table (by simpa using ht))
      exact (width_of_not_table ht).symm

/-- In what is regular or a payload, no table strays where it could be written. -/
theorem straysTable_eq_false {ix : Indexer} {i : Instruction} {units : List UInt16}
    (hi : i.Regular ∨ i.IsTable) (h : i.encode ix = .ok units) : i.straysTable = false :=
  (straysTable_eq_false_iff h).mpr (length_of_encode hi h)

/-! ## 3. Checked builds -/

section Checked

variable (ix : Indexer) (i : Instruction)

theorem size_append (done : Array UInt16) (units : List UInt16) :
    (done ++ units).size = done.size + units.length := by
  rw [← Array.length_toList, Array.toList_appendList, List.length_append, Array.length_toList]

/-- A checked build appends what the other appends, and panics if a table strays. -/
theorem writeChecked_of_encode {units : List UInt16} (h : i.encode ix = .ok units)
    (done : Array UInt16) : i.writeChecked ix done =
      if i.straysTable then .error .panic (done ++ units) else .ok () (done ++ units) := by
  have hw : i.write ix done = .ok () (done ++ units) := by
    simpa using (writes_encode ix i).ok done h
  have hrun : (i.write ix).adaptExcept Stop.fault done = .ok () (done ++ units) := by
    rw [EStateM.adaptExcept, hw]
  have hgrown : (done ++ units).size - done.size = units.length := by
    rw [size_append, Nat.add_sub_cancel_left]
  have hlength := straysTable_eq_false_iff h
  cases hs : i.straysTable with
  | false =>
    refine stateBind_eq_ok.mpr ⟨done, done, rfl, stateBind_eq_ok.mpr ⟨(), _, hrun, ?_⟩⟩
    refine stateBind_eq_ok.mpr ⟨_, _, rfl, ?_⟩
    rw [hgrown, if_neg (by simp [hlength.mp hs])]
    rfl
  | true =>
    have hne : units.length ≠ i.width := fun he => by simp [hlength.mpr he] at hs
    refine stateBind_eq_error.mpr (.inr ⟨done, done, rfl, ?_⟩)
    refine stateBind_eq_error.mpr (.inr ⟨(), _, hrun, ?_⟩)
    refine stateBind_eq_error.mpr (.inr ⟨_, _, rfl, ?_⟩)
    rw [hgrown, if_pos (by simpa using hne)]
    rfl

/-- A fault is the same in both builds, and so is what has been appended before it. -/
theorem writeChecked_of_fault {cause : Error} {done out : Array UInt16}
    (h : i.write ix done = .error cause out) :
    i.writeChecked ix done = .error (.fault cause) out := by
  have hrun : (i.write ix).adaptExcept Stop.fault done = .error (.fault cause) out := by
    rw [EStateM.adaptExcept, h]
  refine stateBind_eq_error.mpr (.inr ⟨done, done, rfl, ?_⟩)
  exact stateBind_eq_error.mpr (.inl hrun)

/-- **The width is what is written**, unless the format has no operand and a table of another width
stands in its place: then, and only then, the check at the end of writing fails. -/
theorem emitted_width_iff (done out : Array UInt16) :
    (i.write ix done = .ok () out →
      out.size = done.size + (if i.format.isPayload then i.width else i.format.width) ∧
        (out.size = done.size + i.width ↔ i.straysTable = false)) ∧
    (i.writeChecked ix done = .ok () out ↔ i.write ix done = .ok () out ∧ i.straysTable = false) ∧
    (i.writeChecked ix done = .error .panic out ↔
      i.write ix done = .ok () out ∧ i.straysTable = true) ∧
    ∀ cause, i.writeChecked ix done = .error (.fault cause) out ↔
      i.write ix done = .error cause out := by
  cases he : i.encode ix with
  | ok units =>
    have hw : i.write ix done = .ok () (done ++ units) := by
      simpa using (writes_encode ix i).ok done he
    rw [writeChecked_of_encode ix i he done, hw]
    refine ⟨?_, ?_, ?_, ?_⟩
    · rintro ⟨⟩
      rw [size_append, straysTable_eq_false_iff he]
      exact ⟨congrArg _ (length_of_encode_eq he), Nat.add_left_cancel_iff⟩
    all_goals cases i.straysTable <;> simp
  | error cause =>
    obtain ⟨left, hleft⟩ := (writes_encode ix i).error done he
    have hw : i.write ix done = .error cause (done ++ left) := by
      simpa using hleft
    rw [writeChecked_of_fault ix i hw, hw]
    simp

/-- A switch without entries is no wider than the copy in whose operand it stands. -/
theorem emitted_width_iff_emptySwitch :
    let copy : Instruction :=
      { opcode := 0x02, format := .f22x, registers := [1, 300], operand := .sparseSwitch [] [] }
    copy.writeChecked Indexer.rawIndices #[0x0000] = .ok () #[0x0000, 0x0102, 0x012C] ∧
      (#[0x0000, 0x0102, 0x012C] : Array UInt16).size = 1 + copy.width := by
  intro copy
  have h : copy.write Indexer.rawIndices #[0x0000] = .ok () #[0x0000, 0x0102, 0x012C] := by
    rfl
  obtain ⟨hwidth, hchecked, -⟩ := emitted_width_iff Indexer.rawIndices copy #[0x0000]
    #[0x0000, 0x0102, 0x012C]
  exact ⟨hchecked.mpr ⟨h, rfl⟩, (hwidth h).2.mpr rfl⟩

/-- A switch table in a format that has no operand. -/
def strayTable : Instruction where
  opcode := 0
  format := .f10x
  operand := .packedSwitch 0 []

/-- The table takes four units by the width of the instruction, and one is written: the one build
goes on with this unit, and the other panics. -/
theorem strayTable_is_not_written :
    strayTable.width = 4 ∧ strayTable.write Indexer.rawIndices #[] = .ok () #[0x0000] ∧
      strayTable.writeChecked Indexer.rawIndices #[] = .error .panic #[0x0000] :=
  ⟨rfl, rfl, rfl⟩

theorem encodeChecked_eq : i.encodeChecked ix =
    match i.encode ix with
    | .ok units => if i.straysTable then .error .panic else .ok units
    | .error cause => .error (.fault cause) := by
  cases he : i.encode ix with
  | ok units =>
    rw [encodeChecked, writeChecked_of_encode ix i he]
    cases i.straysTable <;> simp
  | error cause =>
    obtain ⟨left, hleft⟩ := (writes_encode ix i).error #[] he
    have hw : i.write ix #[] = .error cause left.toArray := by
      simpa using hleft
    rw [encodeChecked, writeChecked_of_fault ix i hw]

/-- **Both builds encode alike** what is regular or a payload; constructors and the decoder make
nothing else. -/
theorem encodeChecked_eq_mapError (hi : i.Regular ∨ i.IsTable) :
    i.encodeChecked ix = (i.encode ix).mapError .fault := by
  rw [encodeChecked_eq]
  cases he : i.encode ix with
  | ok units =>
    rw [straysTable_eq_false hi he]
    rfl
  | error cause => rfl

/-- Emitting takes back what a fault has left, and nothing of what a panic has. -/
theorem emitChecked_eq (done : Array UInt16) : CheckedWriter.emit ix i done =
    match i.encode ix with
    | .ok units =>
      if i.straysTable then .error .panic (done ++ units) else .ok () (done ++ units)
    | .error cause => .error (.fault cause) done := by
  cases he : i.encode ix with
  | ok units =>
    have hw := writeChecked_of_encode ix i he done
    cases hs : i.straysTable with
    | false =>
      rw [hs] at hw
      exact stateBind_eq_ok.mpr ⟨done, done, rfl, stateTryCatch_of_ok hw⟩
    | true =>
      rw [hs] at hw
      refine stateBind_eq_error.mpr (.inr ⟨done, done, rfl, ?_⟩)
      rw [stateTryCatch_of_error hw]
      rfl
  | error cause =>
    obtain ⟨left, hleft⟩ := (writes_encode ix i).error done he
    have hw : i.write ix done = .error cause (done ++ left) := by
      simpa using hleft
    refine stateBind_eq_error.mpr (.inr ⟨done, done, rfl, ?_⟩)
    rw [stateTryCatch_of_error (writeChecked_of_fault ix i hw)]
    refine stateBind_eq_error.mpr (.inr ⟨(), done, ?_, rfl⟩)
    exact stateModify_eq_ok.mpr (CodeWriter.shrink_append done left)

end Checked

end Instruction

end Dalvik
