/-
# Instructions read back

An instruction that encoding accepts is read back from its units, whatever follows them; references
come back as the indices that the indexer gave.  An instruction that was read is written again with
the same units, except that a range without registers loses the register it would start at.

Main statements: `decode_of_encode`, `encode_of_decode` and `encode_resolve`.
-/
import Dalvik.Proofs.Instruction.Payload
import Dalvik.Proofs.Instruction.Unpacking

namespace Dalvik

namespace Instruction

/-! ## 1. Instructions that are built -/

theorem ofOpcode_zero : (Operation.ofOpcode 0).format = .f10x := by
  decide +kernel

/-- Instructions as they are built: from an opcode and an operand that is checked, or a payload. -/
inductive Built : Instruction → Prop
  | checked {opcode : UInt8} {registers : List UInt16} {operand : Operand} {i : Instruction}
      (h : build? opcode registers operand = .ok i) : Built i
  | nop : Built nop
  | table {i : Instruction} (h : i.IsTable) : Built i

theorem nop_regular : nop.Regular where
  assigned := by decide +kernel
  format := by decide +kernel
  fits := rfl

theorem checkOperand_fits {i : Instruction} {operand : Operand} {u : Unit}
    (h : i.checkOperand operand = .ok u) : i.fits operand = true := by
  by_contra hf
  rw [Bool.not_eq_true] at hf
  simp [checkOperand, hf] at h

theorem build?_eq_ok {opcode : UInt8} {registers : List UInt16} {operand : Operand}
    {i : Instruction} :
    build? opcode registers operand = .ok i ↔
      (Operation.ofOpcode opcode).isAssigned = true ∧
        i = ⟨opcode, (Operation.ofOpcode opcode).format, registers, operand⟩ ∧
        i.checkOperand operand = .ok () := by
  unfold build?
  generalize Operation.ofOpcode opcode = operation
  cases ha : operation.isAssigned with
  | false => simp [ha]
  | true =>
    simp only [ha, Bool.not_true, Bool.false_eq_true, if_false, map_eq_ok, true_and]
    constructor
    · rintro ⟨_, hc, rfl⟩
      exact ⟨rfl, hc⟩
    · rintro ⟨rfl, hc⟩
      exact ⟨(), hc, rfl⟩

theorem Built.regular_or_table {i : Instruction} (h : i.Built) : i.Regular ∨ i.IsTable := by
  cases h with
  | nop => exact .inl nop_regular
  | table h => exact .inr h
  | checked h =>
    obtain ⟨ha, rfl, hc⟩ := build?_eq_ok.mp h
    refine .inl ⟨?_, ?_, checkOperand_fits hc⟩
    · dsimp only
      exact ha
    · dsimp only

/-- An instruction stays regular, or a payload, with another operand that is checked. -/
theorem regular_or_table_of_checkOperand {i : Instruction} {operand : Operand}
    (hi : i.Regular ∨ i.IsTable) (h : i.checkOperand operand = .ok ()) :
    ({ i with operand } : Instruction).Regular ∨ ({ i with operand } : Instruction).IsTable := by
  have hf := checkOperand_fits h
  rcases hi with hi | hi
  · exact .inl ⟨hi.assigned, hi.format, hf⟩
  · -- each payload takes operands of its own kind only
    refine .inr ?_
    cases hi with
    | packedSwitch _ _ =>
      cases operand with
      | packedSwitch firstKey targets => exact .packedSwitch firstKey targets
      | _ => cases hf
    | sparseSwitch _ _ =>
      cases operand with
      | sparseSwitch keys targets => exact .sparseSwitch keys targets
      | _ => cases hf
    | arrayData _ _ =>
      cases operand with
      | arrayData elementWidth data => exact .arrayData elementWidth data
      | _ => cases hf

/-! ## 2. One instruction -/

theorem Layout.high_lt {ix : Indexer} {i : Instruction} {high : Nat} {tail : List UInt16}
    (h : Layout ix i high tail) : high < 256 := by
  cases h
  case f11n v _ _ _ _ _ =>
    have := pattern_lt 4 v.toInt
    simp only [show pow2 4 = 16 from rfl] at this
    omega
  case f10t d _ _ _ _ => exact pattern_lt 8 d.toInt
  case f35c hf hl hr hx hi =>
    have := slot_lt hr 4
    unfold packedHigh
    omega
  case f45cc hf hl hr hx hi hy hp =>
    have := slot_lt hr 4
    unfold packedHigh
    omega
  case f3rc hr _ _ => exact hr.length_lt
  case f4rcc hr _ _ _ _ => exact hr.length_lt
  all_goals omega

theorem Layout.length_tail {ix : Indexer} {i : Instruction} {high : Nat} {tail : List UInt16}
    (h : Layout ix i high tail) : tail.length + 1 = i.format.width := by
  cases h <;> simp only [*, Format.width, List.length_cons, List.length_nil, List.length_append,
    length_wordUnits]

theorem Layout.high_eq_zero {ix : Indexer} {i : Instruction} {high : Nat} {tail : List UInt16}
    (h : Layout ix i high tail) (hf : i.format = .f10x) : high = 0 := by
  cases h <;> simp_all

/-- The first unit of an instruction that is no payload is not that of a payload. -/
theorem decode_head {i : Instruction} {offset high : Nat} {rest : List UInt16} (hh : high < 256)
    (hz : i.opcode = 0 → high = 0) :
    decode offset (i.head high :: rest) =
      if !(Operation.ofOpcode i.opcode).isAssigned then .error (.unknownOpcode i.opcode offset)
      else do
        let (registers, operand) ← unpack i.opcode (Operation.ofOpcode i.opcode) offset high
          (rest.take ((Operation.ofOpcode i.opcode).format.width - 1))
        return (⟨i.opcode, (Operation.ofOpcode i.opcode).format, registers, operand⟩,
          (Operation.ofOpcode i.opcode).format.width) := by
  have hlow : (lowByte (i.head high)).toUInt8 = i.opcode := by
    rw [head, lowByte_unitOf i.opcode.toNat_lt hh]
    exact UInt8.ofNat_toNat
  have hhigh : highByte (i.head high) = high := highByte_unitOf i.opcode.toNat_lt hh
  have hmark : (i.opcode == 0 && i.head high != 0) = false := by
    by_cases ho : i.opcode = 0
    · rw [head, ho, hz ho]
      decide
    · simp [ho]
  simp only [decode, hlow, hhigh, hmark, Bool.false_eq_true, if_false]
  rfl

theorem Regular.opcode_zero {i : Instruction} (hi : i.Regular) (ho : i.opcode = 0) :
    i.format = .f10x := by
  rw [hi.format, ho]
  exact ofOpcode_zero

/-- The marks of payloads do not start any other instruction. -/
theorem decode_mark {offset : Nat} {mark : UInt16} {rest : List UInt16}
    (hm : (lowByte mark).toUInt8 = 0) (hz : mark ≠ 0) :
    decode offset (mark :: rest) = decodePayload offset (mark :: rest) := by
  have hmark : ((lowByte mark).toUInt8 == 0 && mark != 0) = true := by simp [hm, hz]
  simp only [decode, hmark, if_true]

theorem IsTable.encode_head {ix : Indexer} {i : Instruction} {units : List UInt16}
    (hi : i.IsTable) (h : i.encode ix = .ok units) :
    ∃ mark tail, units = mark :: tail ∧ (lowByte mark).toUInt8 = 0 ∧ mark ≠ 0 := by
  cases hi with
  | packedSwitch firstKey targets =>
    obtain ⟨-, rfl⟩ := encode_packedSwitchPayload.mp h
    exact ⟨_, _, rfl, by decide, by decide⟩
  | sparseSwitch keys targets =>
    obtain ⟨-, -, rfl⟩ := encode_sparseSwitchPayload.mp h
    exact ⟨_, _, rfl, by decide, by decide⟩
  | arrayData elementWidth data =>
    obtain ⟨-, -, -, rfl⟩ := encode_arrayDataPayload.mp h
    exact ⟨_, _, rfl, by decide, by decide⟩

/-- **An instruction that was written is read back**, whatever code follows it. -/
theorem decode_of_encode {i : Instruction} {units : List UInt16} (hi : i.Regular ∨ i.IsTable)
    (h : i.encode Indexer.rawIndices = .ok units) (offset : Nat) (rest : List UInt16) :
    decode offset (units ++ rest) = .ok (i, units.length) := by
  rcases hi with hi | hi
  · obtain ⟨high, tail, hl, rfl⟩ := layout_of_encode (isPayload_eq_false hi.format) h
    have hz : i.opcode = 0 → high = 0 := fun ho => hl.high_eq_zero (hi.opcode_zero ho)
    have hn := hl.length_tail
    rw [hi.format] at hn
    have htake : (tail ++ rest).take ((Operation.ofOpcode i.opcode).format.width - 1) = tail := by
      rw [← hn, Nat.add_sub_cancel, List.take_left]
    rw [List.cons_append, decode_head hl.high_lt hz, hi.assigned, htake, unpack_of_layout hi hl]
    simp only [Bool.not_true, Bool.false_eq_true, if_false, bind_eq_ok, pure_eq_ok]
    refine ⟨_, rfl, ?_⟩
    rw [List.length_cons, hn, ← hi.format]
  · obtain ⟨mark, tail, rfl, hm, hz⟩ := hi.encode_head h
    rw [← decodePayload_of_encode hi h offset rest]
    exact decode_mark hm hz

/-- Code units as encoding writes them: a range without registers has zero where the first of
them would be. -/
def settle (i : Instruction) (units : List UInt16) : List UInt16 :=
  if i.isEmptyRange then units.set 2 0 else units

theorem settle_cons {i : Instruction} (u : UInt16) (tail : List UInt16) :
    i.settle (u :: tail) = u :: i.settledTail tail := by
  unfold settle settledTail
  split <;> rfl

theorem length_settledTail (i : Instruction) (tail : List UInt16) :
    (i.settledTail tail).length = tail.length := by
  unfold settledTail
  split <;> simp

theorem IsTable.settle_eq {i : Instruction} (hi : i.IsTable) (units : List UInt16) :
    i.settle units = units := by
  cases hi <;> rfl

/-- Only a table makes an instruction wider than its format says. -/
theorem width_of_not_table {i : Instruction} (h : i.operand.isTable = false) :
    i.width = i.format.width := by
  cases ho : i.operand with
  | packedSwitch | sparseSwitch | arrayData =>
    rw [ho] at h
    cases h
  | _ => simp only [width, ho]

theorem Regular.isTable_eq_false {i : Instruction} (hi : i.Regular) :
    i.operand.isTable = false := by
  rw [isTable_of_fits hi.fits, isPayload_eq_false hi.format]

theorem Regular.width_eq {i : Instruction} (hi : i.Regular) : i.width = i.format.width :=
  width_of_not_table hi.isTable_eq_false

/-- **Encoding writes as many units as the instruction is wide.** -/
theorem length_of_encode {ix : Indexer} {i : Instruction} {units : List UInt16}
    (hi : i.Regular ∨ i.IsTable) (h : i.encode ix = .ok units) : units.length = i.width := by
  rcases hi with hi | hi
  · obtain ⟨high, tail, hl, rfl⟩ := layout_of_encode (isPayload_eq_false hi.format) h
    rw [List.length_cons, hl.length_tail, hi.width_eq]
  · have hread := decodePayload_of_encode hi h 0 []
    obtain ⟨-, -, hw, -⟩ := encode_of_decodePayload hread ix
    exact hw

/-- **An instruction that was read is written again** with the same units, but for the first
register of an empty range. -/
theorem encode_of_decode {offset : Nat} {units : List UInt16} {i : Instruction} {width : Nat}
    (h : decode offset units = .ok (i, width)) :
    (i.Regular ∨ i.IsTable) ∧
      i.encode Indexer.rawIndices = .ok (i.settle (units.take width)) ∧
        width = i.width ∧ 0 < width ∧ width ≤ units.length := by
  cases units with
  | nil => simp [decode, throw_ne_ok] at h
  | cons first rest =>
    simp only [decode] at h
    split at h
    · rename_i hm
      obtain ⟨hi, he, hw, hl⟩ := encode_of_decodePayload h Indexer.rawIndices
      exact ⟨.inr hi, by rw [hi.settle_eq, he], hw, hw ▸ i.width_pos, hl⟩
    split at h
    · cases h
    rename_i ha
    rw [Bool.not_eq_true', Bool.not_eq_false] at ha
    simp only [bind_eq_ok, pure_eq_ok, Prod.exists, Prod.mk.injEq] at h
    obtain ⟨registers, operand, hu, rfl, rfl⟩ := h
    obtain ⟨i, hi⟩ : ∃ i : Instruction, i = ⟨(lowByte first).toUInt8,
      (Operation.ofOpcode (lowByte first).toUInt8).format, registers, operand⟩ := ⟨_, rfl⟩
    have hopcode : i.opcode = (lowByte first).toUInt8 := by rw [hi]
    have hformat : i.format = (Operation.ofOpcode i.opcode).format := by rw [hopcode, hi]
    have hregisters : i.registers = registers := by rw [hi]
    have hoperand : i.operand = operand := by rw [hi]
    rw [← hi]
    clear hi
    rw [← hopcode] at ha hu ⊢
    rw [← hregisters, ← hoperand] at hu
    rw [← hformat] at hu ⊢
    obtain ⟨hfits, hl⟩ := layout_of_unpack hformat (highByte_lt first) hu
    have hregular : i.Regular := ⟨ha, hformat, hfits⟩
    have hpos := i.format.width_pos
    have hlen := hl.length_tail
    rw [length_settledTail, List.length_take] at hlen
    obtain ⟨w, hw⟩ : ∃ w, i.format.width = w + 1 := ⟨i.format.width - 1, by omega⟩
    have hhead : i.head (highByte first) = first := by
      rw [head, hopcode, toNat_toUInt8 (lowByte_lt first), unitOf_bytes]
    refine ⟨.inl hregular, ?_, hregular.width_eq.symm, hpos, ?_⟩
    · rw [encode_of_layout hl, hw, List.take_succ_cons, settle_cons, hhead, Nat.add_sub_cancel]
    · rw [List.length_cons]
      omega

/-! ## 3. References by their indices -/

/-- The operand with bare indices in place of what an indexer finds. -/
def resolveOperand (ix : Indexer) : Operand → Except Error Operand
  | .reference r => do return .reference (.raw r.kind (← ix r))
  | .dualReference callee proto => do
    return .dualReference (.raw callee.kind (← ix callee)) (.raw proto.kind (← ix proto))
  | operand => .ok operand

/-- The instruction with bare indices in place of what an indexer finds. -/
def resolve (ix : Indexer) (i : Instruction) : Except Error Instruction :=
  (resolveOperand ix i.operand).map fun operand => { i with operand }

theorem fits_resolve {ix : Indexer} {i : Instruction} {o o' : Operand}
    (h : resolveOperand ix o = .ok o') : i.fits o' = i.fits o := by
  cases o with
  | reference r =>
    simp only [resolveOperand, bind_eq_ok, pure_eq_ok] at h
    obtain ⟨n, -, rfl⟩ := h
    unfold fits
    cases i.format <;> rfl
  | dualReference callee other =>
    simp only [resolveOperand, bind_eq_ok, pure_eq_ok] at h
    obtain ⟨m, -, n, -, rfl⟩ := h
    unfold fits
    cases i.format <;> rfl
  | _ => rw [Except.ok.inj h]

theorem Regular.resolve {ix : Indexer} {i j : Instruction} (hi : i.Regular)
    (h : i.resolve ix = .ok j) : j.Regular := by
  obtain ⟨o, ho, rfl⟩ := map_eq_ok.mp h
  refine ⟨hi.assigned, hi.format, ?_⟩
  have hf : ({ i with operand := o } : Instruction).fits o = i.fits o := rfl
  rw [hf, fits_resolve ho]
  exact hi.fits

/-- A layout does not depend on how the references are written, only on their indices. -/
theorem Layout.replace {ix ix' : Indexer} {i : Instruction} {o : Operand} {high : Nat}
    {tail : List UInt16} (hl : ∀ v, i.operand = .literal v → o = .literal v)
    (hb : ∀ d, i.operand = .branch d → o = .branch d)
    (hx : ∀ k index, i.Refers ix k index →
      ({ i with operand := o } : Instruction).Refers ix' k index)
    (h : Layout ix i high tail) : Layout ix' { i with operand := o } high tail := by
  cases h with
  | f10x hf hr => exact .f10x hf hr
  | f12x hf hr ha hb' => exact .f12x hf hr ha hb'
  | f11n hf hr ha ho hv => exact .f11n hf hr ha (hl _ ho) hv
  | f11x hf hr ha => exact .f11x hf hr ha
  | f10t hf hr ho hd => exact .f10t hf hr (hb _ ho) hd
  | f20t hf hr ho hd => exact .f20t hf hr (hb _ ho) hd
  | f22x hf hr ha => exact .f22x hf hr ha
  | f21t hf hr ha ho hd => exact .f21t hf hr ha (hb _ ho) hd
  | f21s hf hr ha ho hv => exact .f21s hf hr ha (hl _ ho) hv
  | f21h hf hr ha ho hv => exact .f21h hf hr ha (hl _ ho) hv
  | f21c hf hr ha hi hn => exact .f21c hf hr ha (hx _ _ hi) hn
  | f23x hf hr ha hb' hc => exact .f23x hf hr ha hb' hc
  | f22b hf hr ha hb' ho hv => exact .f22b hf hr ha hb' (hl _ ho) hv
  | f22t hf hr ha hb' ho hd => exact .f22t hf hr ha hb' (hb _ ho) hd
  | f22s hf hr ha hb' ho hv => exact .f22s hf hr ha hb' (hl _ ho) hv
  | f22c hf hr ha hb' hi hn => exact .f22c hf hr ha hb' (hx _ _ hi) hn
  | f32x hf hr => exact .f32x hf hr
  | f30t hf hr ho => exact .f30t hf hr (hb _ ho)
  | f31t hf hr ha ho => exact .f31t hf hr ha (hb _ ho)
  | f31i hf hr ha ho hv => exact .f31i hf hr ha (hl _ ho) hv
  | f31c hf hr ha hi => exact .f31c hf hr ha (hx _ _ hi)
  | f35c hf hlen hr hi hn => exact .f35c hf hlen hr (hx _ _ hi) hn
  | f45cc hf hlen hr hi hn hj hm => exact .f45cc hf hlen hr (hx _ _ hi) hn (hx _ _ hj) hm
  | f3rc hf hr hi hn => exact .f3rc hf hr (hx _ _ hi) hn
  | f4rcc hf hr hi hn hj hm => exact .f4rcc hf hr (hx _ _ hi) hn (hx _ _ hj) hm
  | f51l hf hr ha ho => exact .f51l hf hr ha (hl _ ho)

/-- Bare indices refer where the references do. -/
theorem refers_resolve {ix : Indexer} {i : Instruction} {o : Operand} {k : Nat} {index : UInt32}
    (ho : resolveOperand ix i.operand = .ok o) (h : i.Refers ix k index) :
    ({ i with operand := o } : Instruction).Refers Indexer.rawIndices k index := by
  obtain ⟨r, hr, hk, hix⟩ := h
  have hkind (n : UInt32) : (Reference.raw r.kind n).kind = r.kind := rfl
  unfold references at hr
  unfold Refers references
  cases hop : i.operand with
  | reference s =>
    rw [hop] at ho hr
    simp only [resolveOperand, bind_eq_ok, pure_eq_ok] at ho
    obtain ⟨n, hn, rfl⟩ := ho
    rcases k with _ | k
    · obtain rfl : s = r := by simpa using hr
      rw [hn] at hix
      exact ⟨_, rfl, hk, hix⟩
    · simp at hr
  | dualReference s t =>
    rw [hop] at ho hr
    simp only [resolveOperand, bind_eq_ok, pure_eq_ok] at ho
    obtain ⟨m, hm, n, hn, rfl⟩ := ho
    rcases k with _ | _ | k
    · obtain rfl : s = r := by simpa using hr
      rw [hm] at hix
      exact ⟨_, rfl, hk, hix⟩
    · obtain rfl : t = r := by simpa using hr
      rw [hn] at hix
      exact ⟨_, rfl, hk, hix⟩
    · simp at hr
  | _ => simp [hop] at hr

theorem referenceCount_of_fits {i : Instruction} {r : Reference}
    (h : i.fits (.reference r) = true) : i.format.referenceCount = 1 := by
  unfold fits at h
  cases hf : i.format <;> simp [hf, Format.referenceCount] at h ⊢

theorem referenceCount_of_fits_dual {i : Instruction} {callee other : Reference}
    (h : i.fits (.dualReference callee other) = true) : i.format.referenceCount = 2 := by
  unfold fits at h
  cases hf : i.format <;> simp [hf, Format.referenceCount] at h ⊢

/-- What is laid out refers as often as its format does, and in all formats but one the index has
16 bits. -/
theorem Layout.refers {ix : Indexer} {i : Instruction} {high k : Nat} {tail : List UInt16}
    (h : Layout ix i high tail) (hk : k < i.format.referenceCount) :
    ∃ index, i.Refers ix k index ∧ (i.format ≠ .f31c → index.toNat < 65536) := by
  cases h <;> simp only [*, Format.referenceCount] at hk
  case f21c hx hn => exact ⟨_, (Nat.lt_one_iff.mp hk) ▸ hx, fun _ => hn⟩
  case f22c hx hn => exact ⟨_, (Nat.lt_one_iff.mp hk) ▸ hx, fun _ => hn⟩
  case f31c hf _ _ hx => exact ⟨_, (Nat.lt_one_iff.mp hk) ▸ hx, fun hn => absurd hf hn⟩
  case f35c hx hn => exact ⟨_, (Nat.lt_one_iff.mp hk) ▸ hx, fun _ => hn⟩
  case f3rc hx hn => exact ⟨_, (Nat.lt_one_iff.mp hk) ▸ hx, fun _ => hn⟩
  case f45cc hx hn hy hm =>
    rcases k with _ | _ | k
    · exact ⟨_, hx, fun _ => hn⟩
    · exact ⟨_, hy, fun _ => hm⟩
    · omega
  case f4rcc hx hn hy hm =>
    rcases k with _ | _ | k
    · exact ⟨_, hx, fun _ => hn⟩
    · exact ⟨_, hy, fun _ => hm⟩
    · omega
  all_goals omega

/-- The references of what is laid out resolve. -/
theorem Layout.resolves {ix : Indexer} {i : Instruction} {high : Nat} {tail : List UInt16}
    (hfits : i.fits i.operand = true) (h : Layout ix i high tail) :
    ∃ o, resolveOperand ix i.operand = .ok o := by
  cases ho : i.operand with
  | reference r =>
    rw [ho] at hfits
    have hc := referenceCount_of_fits hfits
    obtain ⟨n, ⟨s, hs, -, hn⟩, -⟩ := h.refers (k := 0) (by rw [hc]; decide)
    obtain rfl : r = s := by simpa [references, ho] using hs
    exact ⟨_, bind_eq_ok.mpr ⟨n, hn, rfl⟩⟩
  | dualReference r t =>
    rw [ho] at hfits
    have hc := referenceCount_of_fits_dual hfits
    obtain ⟨m, ⟨s, hs, -, hm⟩, -⟩ := h.refers (k := 0) (by rw [hc]; decide)
    obtain ⟨n, ⟨u, hu, -, hn⟩, -⟩ := h.refers (k := 1) (by rw [hc]; decide)
    obtain rfl : r = s := by simpa [references, ho] using hs
    obtain rfl : t = u := by simpa [references, ho] using hu
    exact ⟨_, bind_eq_ok.mpr ⟨m, hm, bind_eq_ok.mpr ⟨n, hn, rfl⟩⟩⟩
  | _ => exact ⟨_, rfl⟩

theorem resolveOperand_of_literal {ix : Indexer} {i : Instruction} {o : Operand} {v : Int64}
    (ho : resolveOperand ix i.operand = .ok o) (h : i.operand = .literal v) : o = .literal v := by
  rw [h] at ho
  exact (Except.ok.inj ho).symm

theorem resolveOperand_of_branch {ix : Indexer} {i : Instruction} {o : Operand} {d : Int32}
    (ho : resolveOperand ix i.operand = .ok o) (h : i.operand = .branch d) : o = .branch d := by
  rw [h] at ho
  exact (Except.ok.inj ho).symm

/-- **Encoding sees only the indices.**  What is written through an indexer is what is written for
the bare indices that it gives. -/
theorem encode_resolve {ix : Indexer} {i : Instruction} {units : List UInt16}
    (hi : i.Regular ∨ i.IsTable) (h : i.encode ix = .ok units) :
    ∃ j, i.resolve ix = .ok j ∧ (j.Regular ∨ j.IsTable) ∧
      j.encode Indexer.rawIndices = .ok units := by
  rcases hi with hi | hi
  · obtain ⟨high, tail, hl, rfl⟩ := layout_of_encode (isPayload_eq_false hi.format) h
    obtain ⟨o, ho⟩ := hl.resolves hi.fits
    have hj : i.resolve ix = .ok { i with operand := o } := map_eq_ok.mpr ⟨o, ho, rfl⟩
    refine ⟨_, hj, .inl (hi.resolve hj), ?_⟩
    exact encode_of_layout (hl.replace (fun _ => resolveOperand_of_literal ho)
      (fun _ => resolveOperand_of_branch ho) fun _ _ => refers_resolve ho)
  · refine ⟨i, ?_, .inr hi, ?_⟩
    · cases hi <;> rfl
    · cases hi <;> exact h

/-- Bare indices resolve to themselves. -/
theorem resolve_rawIndices {i j : Instruction} (h : i.resolve Indexer.rawIndices = .ok j) :
    j = i := by
  obtain ⟨o, ho, rfl⟩ := map_eq_ok.mp h
  suffices he : o = i.operand by rw [he]
  cases hop : i.operand with
  | reference r =>
    rw [hop] at ho
    simp only [resolveOperand, bind_eq_ok, pure_eq_ok] at ho
    obtain ⟨n, hn, rfl⟩ := ho
    rw [← rawIndices_eq_ok.mp hn]
  | dualReference callee other =>
    rw [hop] at ho
    simp only [resolveOperand, bind_eq_ok, pure_eq_ok] at ho
    obtain ⟨m, hm, n, hn, rfl⟩ := ho
    rw [← rawIndices_eq_ok.mp hm, ← rawIndices_eq_ok.mp hn]
  | _ =>
    rw [hop] at ho
    exact (Except.ok.inj ho).symm

end Instruction

end Dalvik
