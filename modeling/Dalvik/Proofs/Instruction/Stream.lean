/-
# Streams of instructions

What holds of one instruction holds of a stream of them: every instruction is read from exactly the
units that it was written to, so the boundaries between instructions never drift.

Main statements: `decodeStream_emitAll`, that a stream that was written is read back, and
`emitAll_decodeStream`, which says when a stream that was read is written unchanged.
-/
import Dalvik.Proofs.Instruction.Roundtrip
import Dalvik.Proofs.Instruction.Writing

namespace Dalvik

/-! ## 1. Runs of the encoder -/

namespace CodeWriter

theorem emit_eq_ok {ix : Indexer} {i : Instruction} {u : Unit} {done out : Array UInt16} :
    emit ix i done = .ok u out ↔ ∃ units, i.encode ix = .ok units ∧ done ++ units = out := by
  rw [emit_eq]
  cases i.encode ix with
  | ok units => simp [stateModify_eq_ok]
  | error cause => simp [stateThrow_ne_ok]

theorem emitAll_cons {ix : Indexer} {i : Instruction} {code : List Instruction} :
    emitAll ix (i :: code) = emit ix i >>= fun _ => emitAll ix code :=
  rfl

/-- A run over instructions appends the units of each, in order. -/
theorem emitAll_eq_ok {ix : Indexer} {code : List Instruction} {done out : Array UInt16} :
    emitAll ix code done = .ok () out ↔
      ∃ parts, code.mapM (Instruction.encode ix) = .ok parts ∧
        out.toList = done.toList ++ parts.flatten := by
  induction code generalizing done with
  | nil =>
    have hrun : emitAll ix [] = pure () := rfl
    simp only [hrun, statePure_eq_ok, true_and, List.mapM_nil, pure_eq_ok, exists_eq_left',
      List.flatten_nil, List.append_nil, ← Array.toList_inj]
    exact eq_comm
  | cons i code ih =>
    simp only [emitAll_cons, stateBind_eq_ok, emit_eq_ok, ih, List.mapM_cons, bind_eq_ok,
      pure_eq_ok]
    constructor
    · rintro ⟨_, _, ⟨units, hi, rfl⟩, parts, hc, ho⟩
      exact ⟨_, ⟨units, hi, parts, hc, rfl⟩, by simpa using ho⟩
    · rintro ⟨_, ⟨units, hi, parts, hc, rfl⟩, ho⟩
      exact ⟨(), _, ⟨units, hi, rfl⟩, parts, hc, by simpa using ho⟩

end CodeWriter

namespace Instruction

/-! ## 2. Reading a stream that was written -/

/-- Instructions that were written one after the other are read back one after the other: each is
read from exactly the units that it was written to. -/
theorem decodeUpTo_flatten {code : List Instruction} {parts : List (List UInt16)}
    (hcode : ∀ i ∈ code, i.Regular ∨ i.IsTable)
    (h : List.Forall₂ (fun i part => encode Indexer.rawIndices i = .ok part) code parts) :
    ∀ {limit : Nat} (offset : Nat), parts.flatten.length ≤ limit →
      decodeUpTo limit offset parts.flatten = .ok code := by
  induction h with
  | nil =>
    intro limit offset _
    cases limit <;> rfl
  | @cons i part code parts hi _ ih =>
    intro limit offset hl
    have hpos : 0 < part.length := by
      rw [length_of_encode (hcode i (by simp)) hi]
      exact i.width_pos
    rw [List.flatten_cons, List.length_append] at hl
    obtain ⟨limit, rfl⟩ : ∃ l, limit = l + 1 := ⟨limit - 1, by omega⟩
    obtain ⟨first, rest, hu⟩ : ∃ first rest, part ++ parts.flatten = first :: rest :=
      List.exists_cons_of_length_pos (by rw [List.length_append]; omega)
    have hdecode := decode_of_encode (hcode i (by simp)) hi offset parts.flatten
    have ih := @ih (fun i hi => hcode i (by simp [hi])) limit (offset + part.length) (by omega)
    rw [List.flatten_cons, hu, decodeUpTo, ← hu, hdecode]
    · simp only [bind_eq_ok, pure_eq_ok]
      exact ⟨_, rfl, _, by rw [List.drop_left]; exact ih, rfl⟩
    · simp

/-- Instructions that can be written resolve, and their bare forms are written alike. -/
theorem forall₂_resolve {ix : Indexer} {code : List Instruction} {parts : List (List UInt16)}
    (hcode : ∀ i ∈ code, i.Regular ∨ i.IsTable)
    (h : List.Forall₂ (fun i part => encode ix i = .ok part) code parts) :
    ∃ resolved, List.Forall₂ (fun i j => i.resolve ix = .ok j) code resolved ∧
      (∀ j ∈ resolved, j.Regular ∨ j.IsTable) ∧
        List.Forall₂ (fun j part => encode Indexer.rawIndices j = .ok part) resolved parts := by
  induction h with
  | nil => exact ⟨[], .nil, by simp, .nil⟩
  | cons hi _ ih =>
    obtain ⟨resolved, hr, hall, hw⟩ := ih fun i hi => hcode i (by simp [hi])
    obtain ⟨j, hj, hregular, hunits⟩ := encode_resolve (hcode _ (by simp)) hi
    refine ⟨j :: resolved, .cons hj hr, ?_, .cons hunits hw⟩
    intro k hk
    rcases List.mem_cons.mp hk with rfl | hk
    · exact hregular
    · exact hall k hk

/-- **A stream that was written is read back**, with the index of each reference in its place. -/
theorem decodeStream_emitAll {ix : Indexer} {code : List Instruction} {units : Array UInt16}
    (hcode : ∀ i ∈ code, i.Built) (h : CodeWriter.emitAll ix code #[] = .ok () units) :
    ∃ resolved, code.mapM (resolve ix) = .ok resolved ∧
      decodeStream units.toList = .ok resolved ∧
        (ix = Indexer.rawIndices → resolved = code) := by
  obtain ⟨parts, hparts, hunits⟩ := CodeWriter.emitAll_eq_ok.mp h
  obtain ⟨resolved, hr, hall, hw⟩ :=
    forall₂_resolve (fun i hi => (hcode i hi).regular_or_table) (mapM_eq_ok.mp hparts)
  refine ⟨resolved, mapM_eq_ok.mpr hr, ?_, ?_⟩
  · rw [List.nil_append] at hunits
    rw [decodeStream, hunits]
    exact decodeUpTo_flatten hall hw 0 (Nat.le_refl _)
  · rintro rfl
    clear hall hw hparts hcode h
    induction hr with
    | nil => rfl
    | cons hj _ ih => rw [resolve_rawIndices hj, ih]

set_option maxRecDepth 4000 in
theorem decodeStream_emitAll_staticCall :
    let call : Instruction :=
      { opcode := 0x71, format := .f35c, registers := [3, 5],
        operand := .reference (.method ⟨"LA;", "m", ⟨"V", ["I", "I"]⟩⟩) }
    let units : Array UInt16 := #[0x2071, 0x0007, 0x0053, 0x0000]
    (∀ i ∈ [call, nop], i.Built) ∧
      CodeWriter.emitAll (fun _ => .ok 7) [call, nop] #[] = .ok () units ∧
      ∃ resolved, [call, nop].mapM (resolve fun _ => .ok 7) = .ok resolved ∧
        decodeStream units.toList = .ok resolved := by
  intro call units
  have hcode : ∀ i ∈ [call, nop], i.Built := by
    intro i hi
    rcases List.mem_cons.mp hi with rfl | hi
    · have h : build? 0x71 [3, 5] call.operand = .ok call := by decide +kernel
      exact .checked h
    · obtain rfl := List.mem_singleton.mp hi
      exact .nop
  have hrun : CodeWriter.emitAll (fun _ => .ok 7) [call, nop] #[] = .ok () units := by rfl
  obtain ⟨resolved, hr, hd, -⟩ := decodeStream_emitAll hcode hrun
  exact ⟨hcode, hrun, resolved, hr, hd⟩

/-! ## 3. Writing a stream that was read -/

/-- The units of a stream as encoding writes them. -/
def settleAll : List Instruction → List UInt16 → List UInt16
  | [], _ => []
  | i :: code, units => i.settle (units.take i.width) ++ settleAll code (units.drop i.width)

/-- The instructions with the offsets that they start at. -/
def placed (offset : Nat) : List Instruction → List (Nat × Instruction)
  | [] => []
  | i :: code => (offset, i) :: placed (offset + i.width) code

/-- Every instruction of a stream was read at some offset of it. -/
theorem exists_decode_of_decodeUpTo {limit offset : Nat} {units : List UInt16}
    {code : List Instruction} (h : decodeUpTo limit offset units = .ok code) :
    ∀ i ∈ code, ∃ offset rest width, decode offset rest = .ok (i, width) := by
  induction limit generalizing offset units code with
  | zero =>
    obtain rfl : code = [] := by cases units <;> exact (Except.ok.inj h).symm
    simp
  | succ limit ih =>
    cases units with
    | nil =>
      obtain rfl : code = [] := (Except.ok.inj h).symm
      simp
    | cons first rest =>
      rw [decodeUpTo] at h
      · simp only [bind_eq_ok, pure_eq_ok, Prod.exists] at h
        obtain ⟨i, width, hi, code, hc, rfl⟩ := h
        rw [List.forall_mem_cons]
        exact ⟨⟨offset, first :: rest, width, hi⟩, ih hc⟩
      · simp

/-- Instructions that were read one after the other are written one after the other. -/
theorem encode_of_decodeUpTo {limit offset : Nat} {units : List UInt16}
    {code : List Instruction} (hl : units.length ≤ limit)
    (h : decodeUpTo limit offset units = .ok code) :
    ∃ parts, code.mapM (encode Indexer.rawIndices) = .ok parts ∧
      parts.flatten = settleAll code units := by
  induction limit generalizing offset units code with
  | zero =>
    obtain rfl : units = [] := List.length_eq_zero_iff.mp (by omega)
    obtain rfl : code = [] := (Except.ok.inj h).symm
    exact ⟨[], rfl, rfl⟩
  | succ limit ih =>
    cases units with
    | nil =>
      obtain rfl : code = [] := (Except.ok.inj h).symm
      exact ⟨[], rfl, rfl⟩
    | cons first rest =>
      rw [decodeUpTo] at h
      · simp only [bind_eq_ok, pure_eq_ok, Prod.exists] at h
        obtain ⟨i, width, hi, code, hc, rfl⟩ := h
        obtain ⟨-, he, rfl, hpos, hlen⟩ := encode_of_decode hi
        obtain ⟨parts, hp, hflat⟩ := ih (by rw [List.length_drop]; omega) hc
        refine ⟨i.settle ((first :: rest).take i.width) :: parts, ?_, ?_⟩
        · simp only [List.mapM_cons, bind_eq_ok, pure_eq_ok]
          exact ⟨_, he, _, hp, rfl⟩
        · rw [List.flatten_cons, hflat, settleAll]
      · simp

theorem length_settle (i : Instruction) (units : List UInt16) :
    (i.settle units).length = units.length := by
  unfold settle
  split <;> simp

theorem set_eq_self_iff {units : List UInt16} {k : Nat} {u : UInt16} (hk : k < units.length) :
    units.set k u = units ↔ units[k]? = some u := by
  constructor
  · intro h
    rw [← h, List.getElem?_set_self hk]
  · intro h
    obtain ⟨_, rfl⟩ := List.getElem?_eq_some_iff.mp h
    exact List.set_getElem_self hk

theorem width_of_isEmptyRange {i : Instruction} (hi : i.Regular ∨ i.IsTable)
    (he : i.isEmptyRange = true) : 2 < i.width := by
  rcases hi with hi | hi
  · rw [hi.width_eq]
    simp only [isEmptyRange, Bool.and_eq_true, Bool.or_eq_true, beq_iff_eq] at he
    rcases he.1 with hf | hf <;> rw [hf] <;> decide
  · cases hi <;> cases he

/-- A stream that was read is written unchanged exactly if the third unit of every empty range in
it is zero.  Here `whole` is the stream from its start, and `units` what is left of it. -/
theorem settleAll_eq_iff {limit : Nat} {before units : List UInt16} {code : List Instruction}
    (hl : units.length ≤ limit) (h : decodeUpTo limit before.length units = .ok code) :
    settleAll code units = units ↔ ∀ p ∈ placed before.length code,
      p.2.isEmptyRange = true → (before ++ units)[p.1 + 2]? = some 0 := by
  induction limit generalizing before units code with
  | zero =>
    obtain rfl : units = [] := List.length_eq_zero_iff.mp (by omega)
    obtain rfl : code = [] := (Except.ok.inj h).symm
    simp [settleAll, placed]
  | succ limit ih =>
    cases hu : units with
    | nil =>
      rw [hu] at h
      obtain rfl : code = [] := (Except.ok.inj h).symm
      simp [settleAll, placed]
    | cons first rest =>
      rw [← hu]
      rw [hu, decodeUpTo, ← hu] at h
      · simp only [bind_eq_ok, pure_eq_ok, Prod.exists] at h
        obtain ⟨i, width, hi, code, hc, rfl⟩ := h
        obtain ⟨hregular, -, rfl, hpos, hlen⟩ := encode_of_decode hi
        have hbefore : (before ++ units.take i.width).length = before.length + i.width := by
          rw [List.length_append, List.length_take]
          omega
        rw [← hbefore] at hc
        have ih := ih (by rw [List.length_drop]; omega) hc
        rw [List.append_assoc, List.take_append_drop, hbefore] at ih
        have hsettle : i.settle (units.take i.width) = units.take i.width ↔
            (i.isEmptyRange = true → (before ++ units)[before.length + 2]? = some 0) := by
          unfold settle
          by_cases he : i.isEmptyRange = true
          · have hw := width_of_isEmptyRange hregular he
            simp only [he, if_true, true_implies]
            rw [set_eq_self_iff (by rw [List.length_take]; omega), List.getElem?_take_of_lt hw,
              List.getElem?_append_right (by omega), Nat.add_sub_cancel_left]
          · simp [he]
        have happend : settleAll (i :: code) units = units ↔
            i.settle (units.take i.width) = units.take i.width ∧
              settleAll code (units.drop i.width) = units.drop i.width := by
          rw [settleAll]
          constructor
          · intro h
            exact List.append_inj (h.trans (List.take_append_drop _ _).symm) (length_settle _ _)
          · rintro ⟨hs, ht⟩
            rw [hs, ht, List.take_append_drop]
        rw [happend, hsettle, ih, placed, List.forall_mem_cons]
      · simp

/-- **A stream that was read is written again**, but for the register that a range without
registers would start at: the third unit of such a call is not looked at by the reader, and is
zero for the writer.  So the units are the same exactly if all these units are zero. -/
theorem emitAll_decodeStream {units : List UInt16} {code : List Instruction}
    (h : decodeStream units = .ok code) :
    ∃ out, CodeWriter.emitAll Indexer.rawIndices code #[] = .ok () out ∧
      out.toList = settleAll code units ∧
      (out.toList = units ↔
        ∀ p ∈ placed 0 code, p.2.isEmptyRange = true → units[p.1 + 2]? = some 0) := by
  obtain ⟨parts, hp, hflat⟩ := encode_of_decodeUpTo (Nat.le_refl _) h
  have hout : parts.flatten.toArray.toList = settleAll code units := by rw [hflat]
  refine ⟨parts.flatten.toArray, CodeWriter.emitAll_eq_ok.mpr ⟨parts, hp, by simp⟩, hout, ?_⟩
  rw [hout]
  exact @settleAll_eq_iff _ [] _ _ (Nat.le_refl _) h

/-- A static call without arguments, as a range. -/
def emptyStaticCall : Instruction where
  opcode := 0x77
  format := .f3rc
  operand := .reference (.raw .method 0)

set_option maxRecDepth 4000 in
/-- The third unit of this call is read as anything, and written as zero. -/
theorem third_unit_is_lost :
    decodeStream [0x0077, 0x0000, 0x0005] = .ok [emptyStaticCall] ∧
      CodeWriter.emitAll Indexer.rawIndices [emptyStaticCall] #[] =
        .ok () #[0x0077, 0x0000, 0x0000] := by
  exact ⟨by decide +kernel, by rfl⟩

theorem emitAll_decodeStream_emptyStaticCall :
    decodeStream [0x0077, 0x0000, 0x0000] = .ok [emptyStaticCall] ∧
      ∃ out, CodeWriter.emitAll Indexer.rawIndices [emptyStaticCall] #[] = .ok () out ∧
        out.toList = [0x0077, 0x0000, 0x0000] := by
  have h : decodeStream [0x0077, 0x0000, 0x0000] = .ok [emptyStaticCall] := by decide +kernel
  obtain ⟨out, ho, -, hsame⟩ := emitAll_decodeStream h
  refine ⟨h, out, ho, hsame.mpr ?_⟩
  intro p hp _
  obtain rfl := List.mem_singleton.mp hp
  rfl

end Instruction

end Dalvik
