/-
# The format table read backwards

Unpacking inverts the table of `Layout`: registers, numbers and indices come back from the fields
that hold them.  It accepts one thing more than the table has: the unit of the first register of a
range without registers is not looked at.

Main statements: `unpack_of_layout` and `layout_of_unpack`.
-/
import Dalvik.Proofs.Instruction.Layout
import Mathlib.Tactic.IntervalCases

namespace Dalvik

/-! ## 1. What the opcode table says of operands -/

/-- The number of references that the operand of a format holds. -/
def Format.referenceCount : Format → Nat
  | .f21c | .f22c | .f31c | .f35c | .f3rc => 1
  | .f45cc | .f4rcc => 2
  | _ => 0

/-- Whether a format has no operand beside its registers. -/
def Format.isBare : Format → Bool
  | .f10x | .f12x | .f11x | .f22x | .f23x | .f32x => true
  | _ => false

/-- The number of bits that the format of a branch has for the distance. -/
def Format.deltaBits? : Format → Option Nat
  | .f10t => some 8
  | .f20t | .f21t | .f22t => some 16
  | .f30t | .f31t => some 32
  | _ => none

/-- The bits that a format has for a number, where it has all of them. -/
def Format.literalBits? : Format → Option Nat
  | .f11n => some 4
  | .f22b => some 8
  | .f21s | .f22s => some 16
  | .f31i => some 32
  | .f51l => some 64
  | _ => none

/-- Whether an operand is a table among the code. -/
def Operand.isTable : Operand → Bool
  | .packedSwitch _ _ | .sparseSwitch _ _ | .arrayData _ _ => true
  | _ => false

namespace Operation

theorem entry_sound : ∀ o ∈ unassigned :: entries,
    o.references.length = o.format.referenceCount ∧ o.format.isPayload = false := by
  decide +kernel

theorem ofOpcode_mem (opcode : UInt8) : ofOpcode opcode ∈ unassigned :: entries := by
  unfold ofOpcode table
  rw [Array.getD_eq_getD_getElem?, List.getElem?_toArray]
  cases h : entries[opcode.toNat]? with
  | none => simp
  | some o => exact List.mem_cons_of_mem _ (List.mem_of_getElem? h)

end Operation

namespace Instruction

theorem isPayload_eq_false {i : Instruction}
    (hf : i.format = (Operation.ofOpcode i.opcode).format) : i.format.isPayload = false := by
  rw [hf]
  exact (Operation.entry_sound _ (Operation.ofOpcode_mem _)).2

theorem expectedReferences_eq {i : Instruction}
    (hf : i.format = (Operation.ofOpcode i.opcode).format) :
    i.expectedReferences = (Operation.ofOpcode i.opcode).references := by
  simp [expectedReferences, isPayload_eq_false hf]

theorem length_references {i : Instruction}
    (hf : i.format = (Operation.ofOpcode i.opcode).format) :
    (Operation.ofOpcode i.opcode).references.length = i.format.referenceCount := by
  rw [hf]
  exact (Operation.entry_sound _ (Operation.ofOpcode_mem _)).1

theorem fits_eq_none {i : Instruction} {operand : Operand} (hb : i.format.isBare = true)
    (h : i.fits operand = true) : operand = .none := by
  unfold fits at h
  cases hf : i.format <;> simp [hf, Format.isBare] at hb
  all_goals cases operand <;> simp [hf] at h ⊢

theorem fits_reference_iff {i : Instruction} {operand : Operand}
    (hc : i.format.referenceCount = 1) :
    i.fits operand = true ↔
      ∃ r, operand = .reference r ∧ i.expectedReferences.head? = some r.kind := by
  unfold fits
  cases hf : i.format <;> simp [hf, Format.referenceCount] at hc
  all_goals cases operand <;> simp

theorem fits_dualReference_iff {i : Instruction} {operand : Operand}
    (hc : i.format.referenceCount = 2) :
    i.fits operand = true ↔ ∃ callee other, operand = .dualReference callee other ∧
      i.expectedReferences = [callee.kind, other.kind] := by
  unfold fits
  cases hf : i.format <;> simp [hf, Format.referenceCount] at hc
  all_goals cases operand <;> simp

/-- Distances of 32 bits always fit the widest formats, which are not checked. -/
theorem fits_branch_iff {i : Instruction} {d : Int32} :
    i.fits (.branch d) = true ↔
      ∃ bits, i.format.deltaBits? = some bits ∧ fitsSigned bits d.toInt = true := by
  have hwide := fitsSigned_toInt32 d
  cases hf : i.format <;> simp [fits, hf, Format.deltaBits?, hwide]

theorem fits_delta_iff {i : Instruction} {operand : Operand} {bits : Nat}
    (hb : i.format.deltaBits? = some bits) :
    i.fits operand = true ↔ ∃ d, operand = .branch d ∧ fitsSigned bits d.toInt = true := by
  have hwide := fitsSigned_toInt32
  unfold fits
  cases hf : i.format <;> simp [hf, Format.deltaBits?] at hb <;> subst hb
  all_goals cases operand <;> simp [hwide]

theorem fits_literal_iff {i : Instruction} {operand : Operand} {bits : Nat}
    (hb : i.format.literalBits? = some bits) :
    i.fits operand = true ↔ ∃ v, operand = .literal v ∧ fitsSigned bits v.toInt = true := by
  have hwide := fitsSigned_toInt64
  unfold fits
  cases hf : i.format <;> simp [hf, Format.literalBits?] at hb <;> subst hb
  all_goals cases operand <;> simp [hwide]

theorem fits_high_iff {i : Instruction} {operand : Operand} (hf : i.format = .f21h) :
    i.fits operand = true ↔
      ∃ v, operand = .literal v ∧ fitsHigh i.highShift v.toInt = true := by
  unfold fits
  cases operand <;> simp [hf]

/-- Tables fit payloads, and nothing else does. -/
theorem isTable_of_fits {i : Instruction} {operand : Operand} (h : i.fits operand = true) :
    operand.isTable = i.format.isPayload := by
  unfold fits at h
  cases hf : i.format <;> cases operand <;> simp [hf] at h <;> rfl

theorem rawIndices_eq_ok {r : Reference} {index : UInt32} :
    Indexer.rawIndices r = .ok index ↔ r = .raw r.kind index := by
  cases r <;> simp [Indexer.rawIndices, Indexer.dangling, Reference.kind]

/-! ## 2. Registers -/

theorem checkUnused_eq_ok {operation : Operation} {offset bits : Nat} {u : Unit} :
    checkUnused operation offset bits = .ok u ↔ bits = 0 := by
  by_cases h : bits = 0 <;> simp [checkUnused, h]

theorem slot_lt {registers : List UInt16} (h : ∀ r ∈ registers, r.toNat < 16) (k : Nat) :
    slot registers k < 16 := by
  unfold slot
  rw [List.getD_eq_getElem?_getD, List.getElem?_map]
  cases hk : registers[k]? with
  | none => simp
  | some r => simpa using h r (List.mem_of_getElem? hk)

theorem toNat_packedUnit {registers : List UInt16} (h : ∀ r ∈ registers, r.toNat < 16) :
    (packedUnit registers).toNat =
      slot registers 0 + 16 * slot registers 1 + 256 * slot registers 2 +
        4096 * slot registers 3 := by
  have h0 := slot_lt h 0
  have h1 := slot_lt h 1
  have h2 := slot_lt h 2
  have h3 := slot_lt h 3
  exact toNat_toUInt16 (by omega)

/-- The digits of base sixteen, lowest first. -/
def digits (count n : Nat) : List UInt16 :=
  (List.range count).map fun k => (n / pow2 (4 * k) % 16).toUInt16

theorem length_digits (count n : Nat) : (digits count n).length = count := by
  simp [digits]

theorem slot_digits {count n : Nat} (k : Nat) :
    slot (digits count n) k = if k < count then n / pow2 (4 * k) % 16 else 0 := by
  unfold slot digits
  rw [List.getD_eq_getElem?_getD, List.getElem?_map, List.getElem?_map]
  by_cases h : k < count
  · rw [List.getElem?_range h, if_pos h]
    exact toNat_toUInt16 (by omega)
  · rw [if_neg h, List.getElem?_eq_none (by simpa using h)]
    rfl

theorem pow2_values : pow2 0 = 1 ∧ pow2 4 = 16 ∧ pow2 8 = 256 ∧ pow2 12 = 4096 ∧
    pow2 16 = 65536 ∧ pow2 20 = 1048576 := by
  decide

/-- What the registers of a packed format make as one number. -/
def packedNumber (registers : List UInt16) : Nat :=
  (packedUnit registers).toNat + 0x10000 * slot registers 4

/-- Five registers or fewer are the digits of the number that they make. -/
theorem digits_packedNumber {registers : List UInt16} (hl : registers.length ≤ 5)
    (hr : ∀ r ∈ registers, r.toNat < 16) :
    packedNumber registers / pow2 (4 * registers.length) = 0 ∧
      digits registers.length (packedNumber registers) = registers := by
  obtain ⟨p0, p4, p8, p12, p16, p20⟩ := pow2_values
  rw [packedNumber, toNat_packedUnit hr]
  rcases registers with _ | ⟨a, _ | ⟨b, _ | ⟨c, _ | ⟨d, _ | ⟨e, _ | ⟨f, rest⟩⟩⟩⟩⟩⟩
  case cons.cons.cons.cons.cons.cons =>
    simp only [List.length_cons] at hl
    omega
  all_goals
    simp only [slot, digits, List.length_cons, List.length_nil, List.range_succ, List.range_zero,
      List.map_cons, List.map_nil, List.nil_append, List.cons_append,
      List.getD_cons_zero, List.getD_cons_succ, List.getD_nil, List.cons.injEq, and_true,
      List.forall_mem_cons, Nat.reduceAdd, Nat.reduceMul, p0, p4, p8, p12, p16, p20] at hr ⊢
  · exact ⟨by omega, toUInt16_eq (by omega)⟩
  · exact ⟨by omega, toUInt16_eq (by omega), toUInt16_eq (by omega)⟩
  · exact ⟨by omega, toUInt16_eq (by omega), toUInt16_eq (by omega), toUInt16_eq (by omega)⟩
  · exact ⟨by omega, toUInt16_eq (by omega), toUInt16_eq (by omega), toUInt16_eq (by omega),
      toUInt16_eq (by omega)⟩
  · exact ⟨by omega, toUInt16_eq (by omega), toUInt16_eq (by omega), toUInt16_eq (by omega),
      toUInt16_eq (by omega), toUInt16_eq (by omega)⟩

/-- Where no bit is left beyond the digits, they give back the high byte and the unit. -/
theorem packed_digits {high : Nat} {packed : UInt16} (hc : high / 16 ≤ 5)
    (hz : (packed.toNat + 0x10000 * (high % 16)) / pow2 (4 * (high / 16)) = 0) :
    let registers := digits (high / 16) (packed.toNat + 0x10000 * (high % 16))
    packedHigh registers = high ∧ packedUnit registers = packed := by
  intro registers
  obtain ⟨p0, p4, p8, p12, p16, p20⟩ := pow2_values
  have hp := packed.toNat_lt
  -- a digit that is not read is zero because nothing is left beyond the digits
  have hs (k : Nat) (hk : k < 5) :
      slot registers k = (packed.toNat + 0x10000 * (high % 16)) / pow2 (4 * k) % 16 := by
    rw [slot_digits]
    split
    · rfl
    · generalize high / 16 = c at *
      interval_cases c <;> interval_cases k <;>
        simp only [p0, p4, p8, p12, p16, Nat.mul_zero, Nat.reduceMul] at hz ⊢ <;> omega
  constructor
  · rw [packedHigh, hs 4 (by decide), length_digits, p16]
    omega
  · rw [packedUnit, hs 0 (by decide), hs 1 (by decide), hs 2 (by decide), hs 3 (by decide)]
    simp only [p0, p4, p8, p12, Nat.mul_zero, Nat.reduceMul]
    exact toUInt16_eq (by omega)

/-- Five registers or fewer are read back from their fields, and from nothing else. -/
theorem unpackRegisters_eq_ok {operation : Operation} {offset high : Nat} {packed : UInt16}
    {registers : List UInt16} :
    unpackRegisters operation offset high packed = .ok registers ↔
      registers.length ≤ 5 ∧ (∀ r ∈ registers, r.toNat < 16) ∧
        packedHigh registers = high ∧ packedUnit registers = packed := by
  simp only [unpackRegisters]
  by_cases hc : 5 < high / 16
  · simp only [hc, if_true, bind_eq_ok, throw_ne_ok, false_and, exists_false, false_iff]
    rintro ⟨hl, hr, rfl, -⟩
    have := slot_lt hr 4
    unfold packedHigh at hc
    omega
  · simp only [hc, if_false, bind_eq_ok, checkUnused_eq_ok, pure_eq_ok, exists_and_left,
      exists_const]
    constructor
    · rintro ⟨hz, rfl⟩
      refine ⟨?_, ?_, packed_digits (by omega) hz⟩
      · simp only [List.length_map, List.length_range]
        omega
      · simp only [List.mem_map]
        rintro r ⟨k, -, rfl⟩
        rw [toNat_toUInt16 (by omega)]
        omega
    · rintro ⟨hl, hr, rfl, rfl⟩
      have hs := slot_lt hr 4
      have hcount : packedHigh registers / 16 = registers.length := by
        unfold packedHigh
        omega
      have hlast : packedHigh registers % 16 = slot registers 4 := by
        unfold packedHigh
        omega
      rw [hcount, hlast]
      exact digits_packedNumber hl hr

theorem IsRange.length_lt {registers : List UInt16} (h : IsRange registers) :
    registers.length < 256 :=
  Nat.lt_succ_of_le h.1

/-- Consecutive registers are read back from their number and the first of them; without any, the
first is not looked at. -/
theorem unpackRange_eq_ok {offset count : Nat} {first : UInt16} {registers : List UInt16}
    (hc : count < 256) :
    unpackRange offset count first = .ok registers ↔
      IsRange registers ∧ registers.length = count ∧ (0 < count → registers.headD 0 = first) := by
  have hf := first.toNat_lt
  unfold unpackRange IsRange
  rcases Nat.eq_zero_or_pos count with rfl | hpos
  · simp only [Nat.lt_irrefl, decide_false, Bool.and_false, Bool.false_eq_true, if_false,
      List.range'_zero, List.map_nil, Except.ok.injEq, false_implies, and_true]
    constructor
    · rintro rfl
      exact ⟨⟨by decide, rfl⟩, rfl⟩
    · rintro ⟨-, h⟩
      exact (List.length_eq_zero_iff.mp h).symm
  by_cases ho : 0x10000 < first.toNat + count
  · simp only [ho, hpos, decide_true, Bool.and_self, if_true, reduceCtorEq, false_iff]
    rintro ⟨⟨-, hr⟩, hl, hfirst⟩
    -- the last register would not be one
    have hmem : first.toNat + count - 1 ∈ registers.map UInt16.toNat := by
      rw [hr, hfirst trivial, hl, List.mem_range'_1]
      omega
    obtain ⟨r, -, hr'⟩ := List.mem_map.mp hmem
    have := r.toNat_lt
    omega
  · simp only [ho, decide_false, Bool.false_and, Bool.false_eq_true, if_false, Except.ok.injEq,
      hpos, true_implies]
    constructor
    · rintro rfl
      have hmap : ((List.range' first.toNat count).map Nat.toUInt16).map UInt16.toNat =
          List.range' first.toNat count := by
        rw [List.map_map]
        conv_rhs => rw [← List.map_id (List.range' first.toNat count)]
        refine List.map_congr_left fun n hn => toNat_toUInt16 ?_
        have := List.mem_range'_1.mp hn
        omega
      have hhead : ((List.range' first.toNat count).map Nat.toUInt16).headD 0 = first := by
        obtain ⟨n, rfl⟩ : ∃ n, count = n + 1 := ⟨count - 1, by omega⟩
        rw [List.range'_succ, List.map_cons, List.headD_cons]
        exact toUInt16_eq rfl
      have hlen : ((List.range' first.toNat count).map Nat.toUInt16).length = count := by
        simp
      exact ⟨⟨by omega, by rw [hmap, hhead, hlen]⟩, hlen, hhead⟩
    · rintro ⟨⟨-, hr⟩, hl, hfirst⟩
      rw [hfirst, hl] at hr
      rw [← hr, List.map_map]
      refine List.map_id'' (fun r => ?_) _
      exact toUInt16_eq rfl

/-! ## 3. From the table to the instruction -/

/-- An instruction is regular if its opcode is assigned, its format is that of the opcode and its
operand fits. -/
structure Regular (i : Instruction) : Prop where
  assigned : (Operation.ofOpcode i.opcode).isAssigned = true
  format : i.format = (Operation.ofOpcode i.opcode).format
  fits : i.fits i.operand = true

namespace Regular

variable {i : Instruction}

theorem operand_eq_none (hi : i.Regular) (hb : i.format.isBare = true) : i.operand = .none :=
  fits_eq_none hb hi.fits

/-- The operand of a format with one reference, from the index of the reference. -/
theorem operand_eq_oneReference (hi : i.Regular) (hc : i.format.referenceCount = 1)
    {index : UInt32} (hx : i.Refers Indexer.rawIndices 0 index) :
    i.operand = oneReference (Operation.ofOpcode i.opcode) index.toNat := by
  obtain ⟨r, ho, hk⟩ := (fits_reference_iff hc).mp hi.fits
  obtain ⟨r', hr, -, hix⟩ := hx
  simp only [references, ho, List.getElem?_cons_zero, Option.some.injEq] at hr
  subst hr
  rw [rawIndices_eq_ok] at hix
  rw [expectedReferences_eq hi.format] at hk
  rw [ho, hix, oneReference, List.getD_eq_getElem?_getD, ← List.head?_eq_getElem?, hk,
    Option.getD_some, Nat.toUInt32_eq, UInt32.ofNat_toNat]

/-- The operand of a format with two references, from the indices of the references. -/
theorem operand_eq_twoReferences (hi : i.Regular) (hc : i.format.referenceCount = 2)
    {index proto : UInt32} (hx : i.Refers Indexer.rawIndices 0 index) (hlx : index.toNat < 65536)
    (hy : i.Refers Indexer.rawIndices 1 proto) (hly : proto.toNat < 65536) :
    i.operand =
      twoReferences (Operation.ofOpcode i.opcode) index.toUInt16 proto.toUInt16 := by
  obtain ⟨r, s, ho, hk⟩ := (fits_dualReference_iff hc).mp hi.fits
  obtain ⟨r', hr, -, hix⟩ := hx
  obtain ⟨s', hs, -, hiy⟩ := hy
  simp only [references, ho, List.getElem?_cons_zero, List.getElem?_cons_succ,
    Option.some.injEq] at hr hs
  subst hr hs
  rw [rawIndices_eq_ok] at hix hiy
  rw [expectedReferences_eq hi.format] at hk
  rw [ho, hix, hiy, twoReferences, hk, toUInt32_toUInt16 hlx, toUInt32_toUInt16 hly]
  rfl

end Regular

/-- **Unpacking inverts the table** on regular instructions. -/
theorem unpack_of_layout {i : Instruction} (hi : i.Regular) {offset high : Nat}
    {tail : List UInt16} (h : Layout Indexer.rawIndices i high tail) :
    unpack i.opcode (Operation.ofOpcode i.opcode) offset high tail =
      .ok (i.registers, i.operand) := by
  cases h <;>
    simp only [unpack, ← hi.format, bind_eq_ok, checkUnused_eq_ok, pure_eq_ok,
      unpackRegisters_eq_ok, wordUnits, List.cons_append, List.nil_append, toUInt16_toNat,
      toNat_lowUnit, *]
  case f10x hf hr =>
    rw [hi.operand_eq_none (by rw [hf]; rfl)]
    exact ⟨(), trivial, rfl⟩
  case f12x hf hr ha hb =>
    rw [hi.operand_eq_none (by rw [hf]; rfl), low_nibble ha, high_nibble ha, toUInt16_toNat]
  case f11n hf hr ha ho hv =>
    rw [low_nibble ha, high_nibble ha, literalOf_pattern (by decide) hv]
  case f11x hf hr ha => rw [hi.operand_eq_none (by rw [hf]; rfl)]
  case f10t hf hr ho hd => rw [branchOf_pattern (by decide) hd]
  case f20t hf hr ho hd =>
    rw [branchOf_pattern (by decide) hd]
    exact ⟨(), trivial, rfl⟩
  case f22x hf hr ha => rw [hi.operand_eq_none (by rw [hf]; rfl)]
  case f21t hf hr ha ho hd => rw [branchOf_pattern (by decide) hd]
  case f21s hf hr ha ho hv => rw [literalOf_pattern (by decide) hv]
  case f21h hf hr ha ho hv =>
    have hs := signed_high hv
    rw [toNat_lowUnit] at hs
    have hshift : highShift { opcode := i.opcode, format := .f21h } = i.highShift := rfl
    rw [hshift, hs, Int64.ofInt_toInt]
  case f21c hf hr ha hx hl =>
    rw [hi.operand_eq_oneReference (by rw [hf]; rfl) hx, toNat_shortIndex hl]
  case f23x hf hr ha hb hc =>
    rw [hi.operand_eq_none (by rw [hf]; rfl), lowByte_unitOf hb hc, highByte_unitOf hb hc,
      toUInt16_toNat, toUInt16_toNat]
  case f22b v hf hr ha hb ho hv =>
    have hv' := pattern_lt 8 v.toInt
    rw [lowByte_unitOf hb hv', highByte_unitOf hb hv', toUInt16_toNat,
      literalOf_pattern (by decide) hv]
  case f22t hf hr ha hb ho hd =>
    rw [low_nibble ha, high_nibble ha, toUInt16_toNat, branchOf_pattern (by decide) hd]
  case f22s hf hr ha hb ho hv =>
    rw [low_nibble ha, high_nibble ha, toUInt16_toNat, literalOf_pattern (by decide) hv]
  case f22c hf hr ha hb hx hl =>
    rw [hi.operand_eq_oneReference (by rw [hf]; rfl) hx, low_nibble ha, high_nibble ha,
      toUInt16_toNat, toNat_shortIndex hl]
  case f32x hf hr =>
    rw [hi.operand_eq_none (by rw [hf]; rfl)]
    exact ⟨(), trivial, rfl⟩
  case f30t hf hr ho =>
    rw [signedWord_wordUnits]
    exact ⟨(), trivial, rfl⟩
  case f31t hf hr ha ho => rw [signedWord_wordUnits]
  case f31i hf hr ha ho hv => rw [wordOf_wordUnits, literalOf_pattern (by decide) hv]
  case f31c hf hr ha hx =>
    rw [hi.operand_eq_oneReference (by rw [hf]; rfl) hx, wordOf_natCast (UInt32.toNat_lt _)]
  case f35c hf hl hr hx hl' =>
    rw [hi.operand_eq_oneReference (by rw [hf]; rfl) hx, toNat_shortIndex hl']
    exact ⟨_, ⟨hl, hr, rfl, rfl⟩, rfl⟩
  case f45cc hf hl hr hx hlx hy hly =>
    rw [hi.operand_eq_twoReferences (by rw [hf]; rfl) hx hlx hy hly]
    exact ⟨_, ⟨hl, hr, rfl, rfl⟩, rfl⟩
  case f3rc hf hr hx hl =>
    rw [hi.operand_eq_oneReference (by rw [hf]; rfl) hx, toNat_shortIndex hl]
    exact ⟨_, (unpackRange_eq_ok hr.length_lt).mpr ⟨hr, rfl, fun _ => rfl⟩, rfl⟩
  case f4rcc hf hr hx hlx hy hly =>
    rw [hi.operand_eq_twoReferences (by rw [hf]; rfl) hx hlx hy hly]
    exact ⟨_, (unpackRange_eq_ok hr.length_lt).mpr ⟨hr, rfl, fun _ => rfl⟩, rfl⟩
  case f51l v hf hr ha ho =>
    rw [wordOf_wordUnits_high, literalOf_pattern (by decide) (fitsSigned_toInt64 v)]

/-! ## 4. From the instruction to the table -/

theorem highShift_eq (i : Instruction) : i.highShift = 48 ∨ i.highShift = 16 := by
  unfold highShift
  split
  · exact .inl rfl
  · exact .inr rfl

/-- A high constant that was read is in range, and has the unit that was read. -/
theorem highLiteral_spec {shift : Nat} (hs : shift = 48 ∨ shift = 16) (u : UInt16) :
    ∃ v : Int64, Int64.ofInt (signed 16 u.toNat * pow2 shift) = v ∧
      fitsHigh shift v.toInt = true ∧ lowUnit (v.toInt / pow2 shift) = u := by
  have hu : fitsSigned 16 (signed 16 u.toNat) = true := fitsSigned_signed (by decide) u.toNat_lt
  have hpos : (pow2 shift : Int) ≠ 0 := by
    have := pow2_pos shift
    omega
  have hfit : fitsSigned 64 (signed 16 u.toNat * pow2 shift) = true := by
    rw [fitsSigned_iff] at hu ⊢
    simp only [show pow2 (16 - 1) = 32768 from rfl,
      show pow2 (64 - 1) = 9223372036854775808 from rfl] at hu ⊢
    rcases hs with rfl | rfl
    · rw [show pow2 48 = 281474976710656 from rfl]
      omega
    · rw [show pow2 16 = 65536 from rfl]
      omega
  refine ⟨_, rfl, ?_, ?_⟩ <;> rw [toInt_ofInt64 hfit]
  · rw [fitsHigh_iff, Int.mul_ediv_cancel _ hpos]
    exact ⟨Int.mul_emod_left _ _, hu⟩
  · rw [Int.mul_ediv_cancel _ hpos, lowUnit_signed]

/-- A bare index fits and refers as the opcode says. -/
theorem oneReference_spec {i : Instruction} (hf : i.format = (Operation.ofOpcode i.opcode).format)
    (hc : i.format.referenceCount = 1) {n : Nat}
    (ho : i.operand = oneReference (Operation.ofOpcode i.opcode) n) :
    i.fits i.operand = true ∧ i.Refers Indexer.rawIndices 0 n.toUInt32 := by
  obtain ⟨kind, hk⟩ := List.length_eq_one_iff.mp ((length_references hf).trans hc)
  rw [oneReference, hk] at ho
  have he := (expectedReferences_eq hf).trans hk
  refine ⟨?_, _, by rw [references, ho]; rfl, by rw [he]; rfl, rfl⟩
  rw [ho]
  exact (fits_reference_iff hc).mpr ⟨_, rfl, by rw [he]; rfl⟩

/-- Two bare indices fit and refer as the opcode says. -/
theorem twoReferences_spec {i : Instruction}
    (hf : i.format = (Operation.ofOpcode i.opcode).format) (hc : i.format.referenceCount = 2)
    {first second : UInt16}
    (ho : i.operand = twoReferences (Operation.ofOpcode i.opcode) first second) :
    i.fits i.operand = true ∧ i.Refers Indexer.rawIndices 0 first.toUInt32 ∧
      i.Refers Indexer.rawIndices 1 second.toUInt32 := by
  obtain ⟨callee, other, hk⟩ := List.length_eq_two.mp ((length_references hf).trans hc)
  rw [twoReferences, hk] at ho
  have he := (expectedReferences_eq hf).trans hk
  refine ⟨?_, ⟨_, by rw [references, ho]; rfl, by rw [he]; rfl, rfl⟩,
    ⟨_, by rw [references, ho]; rfl, by rw [he]; rfl, rfl⟩⟩
  rw [ho]
  exact (fits_dualReference_iff hc).mpr ⟨_, _, rfl, he⟩

/-- Whether an instruction is a call with a range of no registers. -/
def isEmptyRange (i : Instruction) : Bool :=
  (i.format == .f3rc || i.format == .f4rcc) && i.registers.isEmpty

/-- The units after the first, as encoding writes them: a range without registers has zero where
the first of them would be. -/
def settledTail (i : Instruction) (tail : List UInt16) : List UInt16 :=
  if i.isEmptyRange then tail.set 1 0 else tail

theorem settledTail_of_ne {i : Instruction} (h3 : i.format ≠ .f3rc) (h4 : i.format ≠ .f4rcc)
    (tail : List UInt16) : i.settledTail tail = tail := by
  simp [settledTail, isEmptyRange, h3, h4]

theorem settledTail_of_range {i : Instruction} (hf : i.format = .f3rc ∨ i.format = .f4rcc)
    {first second : UInt16} {rest : List UInt16}
    (h : 0 < i.registers.length → i.registers.headD 0 = second) :
    i.settledTail (first :: second :: rest) = first :: i.registers.headD 0 :: rest := by
  have hf' : (i.format == .f3rc || i.format == .f4rcc) = true := by simpa using hf
  rw [settledTail, isEmptyRange, hf', Bool.true_and]
  cases hr : i.registers with
  | nil => rfl
  | cons a registers =>
    rw [hr] at h
    rw [← h (by simp)]
    rfl

theorem Layout.cast {ix : Indexer} {i : Instruction} {high high' : Nat}
    {tail tail' : List UInt16} (h : Layout ix i high' tail') (hh : high' = high)
    (ht : tail' = tail) : Layout ix i high tail := by
  subst hh ht
  exact h

/-- **What unpacking accepts is in the table**, up to the first register of an empty range. -/
theorem layout_of_unpack {i : Instruction}
    (hformat : i.format = (Operation.ofOpcode i.opcode).format) {offset high : Nat}
    {tail : List UInt16} (hh : high < 256)
    (h : unpack i.opcode (Operation.ofOpcode i.opcode) offset high tail =
      .ok (i.registers, i.operand)) :
    i.fits i.operand ∧ Layout Indexer.rawIndices i high (i.settledTail tail) := by
  have ha : high.toUInt16.toNat = high := toNat_toUInt16 (by omega)
  have hlow : (high % 16).toUInt16.toNat = high % 16 := toNat_toUInt16 (by omega)
  have hhigh : (high / 16).toUInt16.toNat = high / 16 := toNat_toUInt16 (by omega)
  have nibble_lt : high / 16 < pow2 4 := by
    show high / 16 < 16
    omega
  have byte_lt : high < pow2 8 := hh
  have half_lt (u : UInt16) : highByte u < pow2 8 := highByte_lt u
  have unit_lt (u : UInt16) : u.toNat < pow2 16 := u.toNat_lt
  have low_eq (u : UInt16) : (lowByte u).toUInt16.toNat = lowByte u :=
    toNat_toUInt16 (Nat.lt_trans (lowByte_lt u) (by decide))
  have high_eq (u : UInt16) : (highByte u).toUInt16.toNat = highByte u :=
    toNat_toUInt16 (Nat.lt_trans (highByte_lt u) (by decide))
  have low_lt (u : UInt16) : (lowByte u).toUInt16.toNat < 256 := by
    rw [low_eq]
    exact lowByte_lt u
  have high_lt (u : UInt16) : (highByte u).toUInt16.toNat < 256 := by
    rw [high_eq]
    exact highByte_lt u
  have nibbles : high % 16 + 16 * (high / 16) = high := by omega
  -- one case for each format, numbered as `unpack` has them
  unfold unpack at h
  rw [← hformat] at h
  split at h <;>
    simp only [bind_eq_ok, checkUnused_eq_ok, pure_eq_ok, Prod.mk.injEq,
      unpackRegisters_eq_ok, unpackRange_eq_ok hh, throw_ne_ok, exists_and_left, exists_const] at h
  -- only ranges may lose a unit, so they come first
  case h_24 b c hf =>
    obtain ⟨_, ⟨hr, rfl, hfirst⟩, rfl, ho⟩ := h
    obtain ⟨hfit, hx⟩ := oneReference_spec hformat (by rw [hf]; rfl) ho.symm
    refine ⟨hfit, ?_⟩
    rw [toUInt32_unit] at hx
    rw [settledTail_of_range (.inl hf) hfirst]
    exact (Layout.f3rc hf hr hx (toNat_bareIndex b)).cast rfl (by rw [toUInt16_bareIndex])
  case h_25 b c d hf =>
    obtain ⟨_, ⟨hr, rfl, hfirst⟩, rfl, ho⟩ := h
    obtain ⟨hfit, hx, hy⟩ := twoReferences_spec hformat (by rw [hf]; rfl) ho.symm
    refine ⟨hfit, ?_⟩
    rw [settledTail_of_range (.inr hf) hfirst]
    exact (Layout.f4rcc hf hr hx (toNat_bareIndex b) hy (toNat_bareIndex d)).cast rfl
      (by rw [toUInt16_bareIndex, toUInt16_bareIndex])
  all_goals rw [settledTail_of_ne (by rw [‹i.format = _›]; decide) (by rw [‹i.format = _›]; decide)]
  case h_1 hf =>
    obtain ⟨rfl, hr, ho⟩ := h
    refine ⟨by simp only [fits, hf, ← ho], ?_⟩
    exact .f10x hf hr.symm
  case h_2 hf =>
    obtain ⟨hr, ho⟩ := h
    refine ⟨by simp only [fits, hf, ← ho], ?_⟩
    exact (Layout.f12x hf hr.symm (by omega) (by omega)).cast (by omega) rfl
  case h_3 hf =>
    obtain ⟨hr, ho⟩ := h
    obtain ⟨v, hv, hvf, hvp⟩ :=
      literalOf_spec (by decide) (by decide) nibble_lt
    rw [hv] at ho
    refine ⟨by simp only [fits, hf, ← ho, hvf], ?_⟩
    exact (Layout.f11n hf hr.symm (by omega) ho.symm hvf).cast (by omega) rfl
  case h_4 hf =>
    obtain ⟨hr, ho⟩ := h
    refine ⟨by simp only [fits, hf, ← ho], ?_⟩
    exact (Layout.f11x hf hr.symm (by omega)).cast ha rfl
  case h_5 hf =>
    obtain ⟨hr, ho⟩ := h
    obtain ⟨d, hd, hdf, hdp⟩ :=
      branchOf_spec (by decide) (by decide) byte_lt
    rw [hd] at ho
    refine ⟨by simp only [fits, hf, ← ho, hdf], ?_⟩
    exact (Layout.f10t hf hr.symm ho.symm hdf).cast hdp rfl
  case h_6 b hf =>
    obtain ⟨rfl, hr, ho⟩ := h
    obtain ⟨d, hd, hdf, hdp⟩ :=
      branchOf_spec (by decide) (by decide) (unit_lt b)
    rw [hd] at ho
    refine ⟨by simp only [fits, hf, ← ho, hdf], ?_⟩
    exact (Layout.f20t hf hr.symm ho.symm hdf).cast rfl (by rw [lowUnit, hdp, toUInt16_toNat])
  case h_7 b hf =>
    obtain ⟨hr, ho⟩ := h
    refine ⟨by simp only [fits, hf, ← ho], ?_⟩
    exact (Layout.f22x hf hr.symm (by omega)).cast ha rfl
  case h_8 b hf =>
    obtain ⟨hr, ho⟩ := h
    obtain ⟨d, hd, hdf, hdp⟩ :=
      branchOf_spec (by decide) (by decide) (unit_lt b)
    rw [hd] at ho
    refine ⟨by simp only [fits, hf, ← ho, hdf], ?_⟩
    exact (Layout.f21t hf hr.symm (by omega) ho.symm hdf).cast ha
      (by rw [lowUnit, hdp, toUInt16_toNat])
  case h_9 b hf =>
    obtain ⟨hr, ho⟩ := h
    obtain ⟨v, hv, hvf, hvp⟩ :=
      literalOf_spec (by decide) (by decide) (unit_lt b)
    rw [hv] at ho
    refine ⟨by simp only [fits, hf, ← ho, hvf], ?_⟩
    exact (Layout.f21s hf hr.symm (by omega) ho.symm hvf).cast ha
      (by rw [lowUnit, hvp, toUInt16_toNat])
  case h_10 b hf =>
    obtain ⟨hr, ho⟩ := h
    obtain ⟨v, hv, hvf, hvu⟩ := highLiteral_spec i.highShift_eq b
    replace ho : Operand.literal v = i.operand := hv ▸ ho
    refine ⟨by simp only [fits, hf, ← ho, hvf], ?_⟩
    exact (Layout.f21h hf hr.symm (by omega) ho.symm hvf).cast ha (by rw [hvu])
  case h_11 b hf =>
    obtain ⟨hr, ho⟩ := h
    obtain ⟨hfit, hx⟩ := oneReference_spec hformat (by rw [hf]; rfl) ho.symm
    refine ⟨hfit, ?_⟩
    rw [toUInt32_unit] at hx
    exact (Layout.f21c hf hr.symm (by omega) hx (toNat_bareIndex b)).cast ha
      (by rw [toUInt16_bareIndex])
  case h_12 b hf =>
    obtain ⟨hr, ho⟩ := h
    refine ⟨by simp only [fits, hf, ← ho], ?_⟩
    exact (Layout.f23x hf hr.symm (by omega) (low_lt b) (high_lt b)).cast ha
      (by rw [low_eq, high_eq, unitOf_bytes])
  case h_13 b hf =>
    obtain ⟨hr, ho⟩ := h
    obtain ⟨v, hv, hvf, hvp⟩ :=
      literalOf_spec (by decide) (by decide) (half_lt b)
    rw [hv] at ho
    refine ⟨by simp only [fits, hf, ← ho, hvf], ?_⟩
    exact (Layout.f22b hf hr.symm (by omega) (low_lt b) ho.symm hvf).cast
      ha (by rw [hvp, low_eq, unitOf_bytes])
  case h_14 b hf =>
    obtain ⟨hr, ho⟩ := h
    obtain ⟨d, hd, hdf, hdp⟩ :=
      branchOf_spec (by decide) (by decide) (unit_lt b)
    rw [hd] at ho
    refine ⟨by simp only [fits, hf, ← ho, hdf], ?_⟩
    exact (Layout.f22t hf hr.symm (by omega) (by omega) ho.symm hdf).cast (by omega)
      (by rw [lowUnit, hdp, toUInt16_toNat])
  case h_15 b hf =>
    obtain ⟨hr, ho⟩ := h
    obtain ⟨v, hv, hvf, hvp⟩ :=
      literalOf_spec (by decide) (by decide) (unit_lt b)
    rw [hv] at ho
    refine ⟨by simp only [fits, hf, ← ho, hvf], ?_⟩
    exact (Layout.f22s hf hr.symm (by omega) (by omega) ho.symm hvf).cast (by omega)
      (by rw [lowUnit, hvp, toUInt16_toNat])
  case h_16 b hf =>
    obtain ⟨hr, ho⟩ := h
    obtain ⟨hfit, hx⟩ := oneReference_spec hformat (by rw [hf]; rfl) ho.symm
    refine ⟨hfit, ?_⟩
    rw [toUInt32_unit] at hx
    exact (Layout.f22c hf hr.symm (by omega) (by omega) hx (toNat_bareIndex b)).cast (by omega)
      (by rw [toUInt16_bareIndex])
  case h_17 b c hf =>
    obtain ⟨rfl, hr, ho⟩ := h
    refine ⟨by simp only [fits, hf, ← ho], ?_⟩
    exact .f32x hf hr.symm
  case h_18 b c hf =>
    obtain ⟨rfl, hr, ho⟩ := h
    refine ⟨by simp only [fits, hf, ← ho], ?_⟩
    exact (Layout.f30t hf hr.symm ho.symm).cast rfl (by rw [toInt_signedWord, wordUnits_signed])
  case h_19 b c hf =>
    obtain ⟨hr, ho⟩ := h
    refine ⟨by simp only [fits, hf, ← ho], ?_⟩
    exact (Layout.f31t hf hr.symm (by omega) ho.symm).cast ha
      (by rw [toInt_signedWord, wordUnits_signed])
  case h_20 b c hf =>
    obtain ⟨hr, ho⟩ := h
    obtain ⟨v, hv, hvf, hvp⟩ :=
      literalOf_spec (by decide) (by decide) (wordOf_lt b c)
    rw [hv] at ho
    refine ⟨by simp only [fits, hf, ← ho, hvf], ?_⟩
    exact (Layout.f31i hf hr.symm (by omega) ho.symm hvf).cast ha (wordUnits_eq hvp)
  case h_21 b c hf =>
    obtain ⟨hr, ho⟩ := h
    obtain ⟨hfit, hx⟩ := oneReference_spec hformat (by rw [hf]; rfl) ho.symm
    refine ⟨hfit, ?_⟩
    exact (Layout.f31c hf hr.symm (by omega) hx).cast ha
      (by rw [toNat_toUInt32 (wordOf_lt b c), wordUnits_natCast])
  case h_22 b c hf =>
    obtain ⟨_, ⟨hl, hr, rfl, rfl⟩, rfl, ho⟩ := h
    obtain ⟨hfit, hx⟩ := oneReference_spec hformat (by rw [hf]; rfl) ho.symm
    refine ⟨hfit, ?_⟩
    rw [toUInt32_unit] at hx
    exact (Layout.f35c hf hl hr hx (toNat_bareIndex b)).cast rfl (by rw [toUInt16_bareIndex])
  case h_23 b c d hf =>
    obtain ⟨_, ⟨hl, hr, rfl, rfl⟩, rfl, ho⟩ := h
    obtain ⟨hfit, hx, hy⟩ := twoReferences_spec hformat (by rw [hf]; rfl) ho.symm
    refine ⟨hfit, ?_⟩
    exact (Layout.f45cc hf hl hr hx (toNat_bareIndex b) hy (toNat_bareIndex d)).cast rfl
      (by rw [toUInt16_bareIndex, toUInt16_bareIndex])
  case h_26 b c d e hf =>
    obtain ⟨hr, ho⟩ := h
    obtain ⟨v, hv, hvf, hvp⟩ :=
      literalOf_spec (by decide) (by decide) (wideOf_lt b c d e)
    rw [hv] at ho
    refine ⟨by simp only [fits, hf, ← ho], ?_⟩
    exact (Layout.f51l hf hr.symm (by omega) ho.symm).cast ha (wideUnits_eq hvp)

end Instruction

end Dalvik
