/-
# The format table

`Layout ix i high tail` says what an instruction that is no payload looks like in code units: `high`
is the high byte of its first unit and `tail` are the units after it.  There is one rule for each
format, and a rule says all that the format asks for: how many registers and how large, the kind and
the range of the operand, and the index that `ix` gives a reference.

Main statement: `encode_eq_ok_iff`, that encoding writes exactly what the table says and fails
exactly where no rule applies.
-/
import Dalvik.Proofs.Instruction.Packing
import Dalvik.Proofs.Outcome

namespace Dalvik

/-! ## 1. What the parts of an encoder accept -/

theorem nibble_eq_ok {r : UInt16} {n : Nat} : nibble r = .ok n ↔ r.toNat < 16 ∧ r.toNat = n := by
  have h : r < 0x10 ↔ r.toNat < 16 := UInt16.lt_iff_toNat_lt
  by_cases hr : r.toNat < 16 <;> simp [nibble, h, hr]

theorem byte_eq_ok {r : UInt16} {n : Nat} : byte r = .ok n ↔ r.toNat < 256 ∧ r.toNat = n := by
  have h : r < 0x100 ↔ r.toNat < 256 := UInt16.lt_iff_toNat_lt
  by_cases hr : r.toNat < 256 <;> simp [byte, h, hr]

theorem shortIndex_eq_ok {n : UInt32} {u : UInt16} :
    shortIndex n = .ok u ↔ n.toNat < 65536 ∧ n.toUInt16 = u := by
  have h : n < 0x10000 ↔ n.toNat < 65536 := UInt32.lt_iff_toNat_lt
  by_cases hn : n.toNat < 65536 <;> simp [shortIndex, h, hn]

namespace Instruction

theorem noRegister_eq_ok {i : Instruction} {u : Unit} :
    i.noRegister = .ok u ↔ i.registers = [] := by
  unfold noRegister
  split <;> simp_all [registerMismatch]

theorem oneRegister_eq_ok {i : Instruction} {a : UInt16} :
    i.oneRegister = .ok a ↔ i.registers = [a] := by
  unfold oneRegister
  split <;> simp_all [registerMismatch]

theorem twoRegisters_eq_ok {i : Instruction} {a b : UInt16} :
    i.twoRegisters = .ok (a, b) ↔ i.registers = [a, b] := by
  unfold twoRegisters
  split <;> simp_all [registerMismatch]

theorem threeRegisters_eq_ok {i : Instruction} {a b c : UInt16} :
    i.threeRegisters = .ok (a, b, c) ↔ i.registers = [a, b, c] := by
  unfold threeRegisters
  split <;> simp_all [registerMismatch]

theorem literal_eq_ok {i : Instruction} {bits : Nat} {value : Int} :
    i.literal bits = .ok value ↔
      ∃ v, i.operand = .literal v ∧ fitsSigned bits v.toInt ∧ v.toInt = value := by
  unfold literal
  split
  · split <;> simp_all
  · simp_all [operandMismatch]

theorem branch_eq_ok {i : Instruction} {bits : Nat} {value : Int} :
    i.branch bits = .ok value ↔
      ∃ d, i.operand = .branch d ∧ fitsSigned bits d.toInt ∧ d.toInt = value := by
  unfold branch
  split
  · split <;> simp_all
  · simp_all [operandMismatch]

theorem highLiteral_eq_ok {i : Instruction} {value : Int} :
    i.highLiteral = .ok value ↔
      ∃ v, i.operand = .literal v ∧ fitsHigh i.highShift v.toInt ∧
        v.toInt / pow2 i.highShift = value := by
  simp only [highLiteral, bind_eq_ok, literal_eq_ok]
  constructor
  · rintro ⟨_, ⟨v, ho, -, rfl⟩, h⟩
    split at h
    · exact ⟨v, ho, ‹_›, pure_eq_ok.mp h⟩
    · simp [throw_ne_ok] at h
  · rintro ⟨v, ho, hv, h⟩
    exact ⟨v.toInt, ⟨v, ho, fitsSigned_toInt64 v, rfl⟩, by rw [if_pos hv]; exact pure_eq_ok.mpr h⟩

/-- The index of the `k`th reference, which points into the `k`th pool that the opcode expects. -/
def Refers (ix : Indexer) (i : Instruction) (k : Nat) (index : UInt32) : Prop :=
  ∃ r, i.references[k]? = some r ∧ i.expectedReferences[k]? = some r.kind ∧ ix r = .ok index

theorem indexInto_eq_ok {ix : Indexer} {i : Instruction} {expected : Option ReferenceKind}
    {r : Reference} {index : UInt32} :
    i.indexInto ix expected r = .ok index ↔ expected = some r.kind ∧ ix r = .ok index := by
  by_cases h : expected = some r.kind <;> simp [indexInto, h]

theorem firstIndex_eq_ok {ix : Indexer} {i : Instruction} {index : UInt32} :
    i.firstIndex ix = .ok index ↔ i.Refers ix 0 index := by
  unfold firstIndex Refers references
  cases i.operand <;> simp [operandMismatch, indexInto_eq_ok]

theorem secondIndex_eq_ok {ix : Indexer} {i : Instruction} {index : UInt32} :
    i.secondIndex ix = .ok index ↔ i.Refers ix 1 index := by
  unfold secondIndex Refers references
  cases i.operand <;> simp [operandMismatch, indexInto_eq_ok]

/-- The `k`th of at most five registers, for a field of four bits; zero if there is none. -/
def slot (registers : List UInt16) (k : Nat) : Nat :=
  (registers.map UInt16.toNat).getD k 0

/-- The high byte of the first unit: the last of five registers, and their number. -/
def packedHigh (registers : List UInt16) : Nat :=
  slot registers 4 + 16 * registers.length

/-- The unit of the first four registers. -/
def packedUnit (registers : List UInt16) : UInt16 :=
  (slot registers 0 + 16 * slot registers 1 + 256 * slot registers 2 +
    4096 * slot registers 3).toUInt16

theorem mapM_nibble {registers : List UInt16} {nibbles : List Nat} :
    registers.mapM nibble = .ok nibbles ↔
      (∀ r ∈ registers, r.toNat < 16) ∧ nibbles = registers.map UInt16.toNat := by
  induction registers generalizing nibbles with
  | nil =>
    simp only [List.mapM_nil, pure_eq_ok, List.map_nil, List.not_mem_nil]
    simp [eq_comm]
  | cons r rest ih =>
    simp only [List.mapM_cons, bind_eq_ok, pure_eq_ok, nibble_eq_ok, ih, List.mem_cons,
      forall_eq_or_imp, List.map_cons]
    constructor
    · rintro ⟨_, ⟨hr, rfl⟩, _, ⟨hrest, rfl⟩, rfl⟩
      exact ⟨⟨hr, hrest⟩, rfl⟩
    · rintro ⟨⟨hr, hrest⟩, rfl⟩
      exact ⟨_, ⟨hr, rfl⟩, _, ⟨hrest, rfl⟩, rfl⟩

theorem packedRegisters_eq_ok {i : Instruction} {high : Nat} {unit : UInt16} :
    i.packedRegisters = .ok (high, unit) ↔
      i.registers.length ≤ 5 ∧ (∀ r ∈ i.registers, r.toNat < 16) ∧
        packedHigh i.registers = high ∧ packedUnit i.registers = unit := by
  simp only [packedRegisters]
  by_cases hl : 5 < i.registers.length
  · simp only [hl, if_true, bind_eq_ok, throw_ne_ok, false_and, exists_false, false_iff]
    omega
  · have hl' : i.registers.length ≤ 5 := by omega
    simp only [hl, if_false, bind_eq_ok, mapM_nibble, pure_eq_ok, hl', true_and, Prod.mk.injEq]
    constructor
    · rintro ⟨_, ⟨hr, rfl⟩, h⟩
      refine ⟨hr, ?_⟩
      simpa [packedHigh, packedUnit, slot] using h
    · rintro ⟨hr, h⟩
      refine ⟨_, ⟨hr, rfl⟩, ?_⟩
      simpa [packedHigh, packedUnit, slot] using h

/-- At most 255 consecutive registers. -/
def IsRange (registers : List UInt16) : Prop :=
  registers.length ≤ 255 ∧
    registers.map UInt16.toNat = List.range' (registers.headD 0).toNat registers.length

theorem registerRange_eq_ok {i : Instruction} {count : Nat} {first : UInt16} :
    i.registerRange = .ok (count, first) ↔
      IsRange i.registers ∧ i.registers.length = count ∧ i.registers.headD 0 = first := by
  unfold registerRange IsRange
  generalize i.registers.headD 0 = start
  by_cases hc : 255 < i.registers.length
  · have hc' : ¬ i.registers.length ≤ 255 := by omega
    simp [hc, hc']
  · have hc' : i.registers.length ≤ 255 := by omega
    by_cases hr : i.registers.map UInt16.toNat = List.range' start.toNat i.registers.length
    · simp [hc, hc', hr]
    · simp [hc, hr]

/-! ## 2. The table -/

/-- **The format table.**  One rule for each format that is no payload. -/
inductive Layout (ix : Indexer) (i : Instruction) : (high : Nat) → (tail : List UInt16) → Prop
  | f10x (hf : i.format = .f10x) (hr : i.registers = []) : Layout ix i 0 []
  | f12x {a b : UInt16} (hf : i.format = .f12x) (hr : i.registers = [a, b]) (ha : a.toNat < 16)
      (hb : b.toNat < 16) : Layout ix i (a.toNat + 16 * b.toNat) []
  | f11n {a : UInt16} {v : Int64} (hf : i.format = .f11n) (hr : i.registers = [a])
      (ha : a.toNat < 16) (ho : i.operand = .literal v) (hv : fitsSigned 4 v.toInt) :
      Layout ix i (a.toNat + 16 * pattern 4 v.toInt) []
  | f11x {a : UInt16} (hf : i.format = .f11x) (hr : i.registers = [a]) (ha : a.toNat < 256) :
      Layout ix i a.toNat []
  | f10t {d : Int32} (hf : i.format = .f10t) (hr : i.registers = []) (ho : i.operand = .branch d)
      (hd : fitsSigned 8 d.toInt) : Layout ix i (pattern 8 d.toInt) []
  | f20t {d : Int32} (hf : i.format = .f20t) (hr : i.registers = []) (ho : i.operand = .branch d)
      (hd : fitsSigned 16 d.toInt) : Layout ix i 0 [lowUnit d.toInt]
  | f22x {a b : UInt16} (hf : i.format = .f22x) (hr : i.registers = [a, b])
      (ha : a.toNat < 256) : Layout ix i a.toNat [b]
  | f21t {a : UInt16} {d : Int32} (hf : i.format = .f21t) (hr : i.registers = [a])
      (ha : a.toNat < 256) (ho : i.operand = .branch d) (hd : fitsSigned 16 d.toInt) :
      Layout ix i a.toNat [lowUnit d.toInt]
  | f21s {a : UInt16} {v : Int64} (hf : i.format = .f21s) (hr : i.registers = [a])
      (ha : a.toNat < 256) (ho : i.operand = .literal v) (hv : fitsSigned 16 v.toInt) :
      Layout ix i a.toNat [lowUnit v.toInt]
  | f21h {a : UInt16} {v : Int64} (hf : i.format = .f21h) (hr : i.registers = [a])
      (ha : a.toNat < 256) (ho : i.operand = .literal v) (hv : fitsHigh i.highShift v.toInt) :
      Layout ix i a.toNat [lowUnit (v.toInt / pow2 i.highShift)]
  | f21c {a : UInt16} {index : UInt32} (hf : i.format = .f21c) (hr : i.registers = [a])
      (ha : a.toNat < 256) (hx : i.Refers ix 0 index) (hi : index.toNat < 65536) :
      Layout ix i a.toNat [index.toUInt16]
  | f23x {a b c : UInt16} (hf : i.format = .f23x) (hr : i.registers = [a, b, c])
      (ha : a.toNat < 256) (hb : b.toNat < 256) (hc : c.toNat < 256) :
      Layout ix i a.toNat [unitOf b.toNat c.toNat]
  | f22b {a b : UInt16} {v : Int64} (hf : i.format = .f22b) (hr : i.registers = [a, b])
      (ha : a.toNat < 256) (hb : b.toNat < 256) (ho : i.operand = .literal v)
      (hv : fitsSigned 8 v.toInt) : Layout ix i a.toNat [unitOf b.toNat (pattern 8 v.toInt)]
  | f22t {a b : UInt16} {d : Int32} (hf : i.format = .f22t) (hr : i.registers = [a, b])
      (ha : a.toNat < 16) (hb : b.toNat < 16) (ho : i.operand = .branch d)
      (hd : fitsSigned 16 d.toInt) : Layout ix i (a.toNat + 16 * b.toNat) [lowUnit d.toInt]
  | f22s {a b : UInt16} {v : Int64} (hf : i.format = .f22s) (hr : i.registers = [a, b])
      (ha : a.toNat < 16) (hb : b.toNat < 16) (ho : i.operand = .literal v)
      (hv : fitsSigned 16 v.toInt) : Layout ix i (a.toNat + 16 * b.toNat) [lowUnit v.toInt]
  | f22c {a b : UInt16} {index : UInt32} (hf : i.format = .f22c) (hr : i.registers = [a, b])
      (ha : a.toNat < 16) (hb : b.toNat < 16) (hx : i.Refers ix 0 index)
      (hi : index.toNat < 65536) : Layout ix i (a.toNat + 16 * b.toNat) [index.toUInt16]
  | f32x {a b : UInt16} (hf : i.format = .f32x) (hr : i.registers = [a, b]) : Layout ix i 0 [a, b]
  | f30t {d : Int32} (hf : i.format = .f30t) (hr : i.registers = [])
      (ho : i.operand = .branch d) : Layout ix i 0 (wordUnits d.toInt)
  | f31t {a : UInt16} {d : Int32} (hf : i.format = .f31t) (hr : i.registers = [a])
      (ha : a.toNat < 256) (ho : i.operand = .branch d) : Layout ix i a.toNat (wordUnits d.toInt)
  | f31i {a : UInt16} {v : Int64} (hf : i.format = .f31i) (hr : i.registers = [a])
      (ha : a.toNat < 256) (ho : i.operand = .literal v) (hv : fitsSigned 32 v.toInt) :
      Layout ix i a.toNat (wordUnits v.toInt)
  | f31c {a : UInt16} {index : UInt32} (hf : i.format = .f31c) (hr : i.registers = [a])
      (ha : a.toNat < 256) (hx : i.Refers ix 0 index) :
      Layout ix i a.toNat (wordUnits index.toNat)
  | f35c {index : UInt32} (hf : i.format = .f35c) (hl : i.registers.length ≤ 5)
      (hr : ∀ r ∈ i.registers, r.toNat < 16) (hx : i.Refers ix 0 index)
      (hi : index.toNat < 65536) :
      Layout ix i (packedHigh i.registers) [index.toUInt16, packedUnit i.registers]
  | f45cc {index proto : UInt32} (hf : i.format = .f45cc) (hl : i.registers.length ≤ 5)
      (hr : ∀ r ∈ i.registers, r.toNat < 16) (hx : i.Refers ix 0 index)
      (hi : index.toNat < 65536) (hy : i.Refers ix 1 proto) (hp : proto.toNat < 65536) :
      Layout ix i (packedHigh i.registers)
        [index.toUInt16, packedUnit i.registers, proto.toUInt16]
  | f3rc {index : UInt32} (hf : i.format = .f3rc) (hr : IsRange i.registers)
      (hx : i.Refers ix 0 index) (hi : index.toNat < 65536) :
      Layout ix i i.registers.length [index.toUInt16, i.registers.headD 0]
  | f4rcc {index proto : UInt32} (hf : i.format = .f4rcc) (hr : IsRange i.registers)
      (hx : i.Refers ix 0 index) (hi : index.toNat < 65536) (hy : i.Refers ix 1 proto)
      (hp : proto.toNat < 65536) :
      Layout ix i i.registers.length [index.toUInt16, i.registers.headD 0, proto.toUInt16]
  | f51l {a : UInt16} {v : Int64} (hf : i.format = .f51l) (hr : i.registers = [a])
      (ha : a.toNat < 256) (ho : i.operand = .literal v) :
      Layout ix i a.toNat (wordUnits v.toInt ++ wordUnits (v.toInt / 0x100000000))

/-! ## 3. Encoding and the table -/

/-- What encoding writes is laid out as the table says. -/
theorem layout_of_encode {ix : Indexer} {i : Instruction} {units : List UInt16}
    (hp : i.format.isPayload = false) (h : i.encode ix = .ok units) :
    ∃ high tail, Layout ix i high tail ∧ units = i.head high :: tail := by
  cases hf : i.format <;>
    simp only [encode, hf, bind_eq_ok, pure_eq_ok, noRegister_eq_ok, oneRegister_eq_ok,
      twoRegisters_eq_ok, threeRegisters_eq_ok, nibble_eq_ok, byte_eq_ok, shortIndex_eq_ok,
      literal_eq_ok, branch_eq_ok, highLiteral_eq_ok, firstIndex_eq_ok, secondIndex_eq_ok,
      packedRegisters_eq_ok, registerRange_eq_ok, Prod.exists] at h
  case f10x =>
    obtain ⟨_, hr, rfl⟩ := h
    exact ⟨_, _, .f10x hf hr, rfl⟩
  case f12x =>
    obtain ⟨a, b, hr, _, ⟨ha, rfl⟩, _, ⟨hb, rfl⟩, rfl⟩ := h
    exact ⟨_, _, .f12x hf hr ha hb, rfl⟩
  case f11n =>
    obtain ⟨a, hr, _, ⟨v, ho, hv, rfl⟩, _, ⟨ha, rfl⟩, rfl⟩ := h
    exact ⟨_, _, .f11n hf hr ha ho hv, rfl⟩
  case f11x =>
    obtain ⟨a, hr, _, ⟨ha, rfl⟩, rfl⟩ := h
    exact ⟨_, _, .f11x hf hr ha, rfl⟩
  case f10t =>
    obtain ⟨_, hr, _, ⟨d, ho, hd, rfl⟩, rfl⟩ := h
    exact ⟨_, _, .f10t hf hr ho hd, rfl⟩
  case f20t =>
    obtain ⟨_, hr, _, ⟨d, ho, hd, rfl⟩, rfl⟩ := h
    exact ⟨_, _, .f20t hf hr ho hd, rfl⟩
  case f22x =>
    obtain ⟨a, b, hr, _, ⟨ha, rfl⟩, rfl⟩ := h
    exact ⟨_, _, .f22x hf hr ha, rfl⟩
  case f21t =>
    obtain ⟨a, hr, _, ⟨ha, rfl⟩, _, ⟨d, ho, hd, rfl⟩, rfl⟩ := h
    exact ⟨_, _, .f21t hf hr ha ho hd, rfl⟩
  case f21s =>
    obtain ⟨a, hr, _, ⟨ha, rfl⟩, _, ⟨v, ho, hv, rfl⟩, rfl⟩ := h
    exact ⟨_, _, .f21s hf hr ha ho hv, rfl⟩
  case f21h =>
    obtain ⟨a, hr, _, ⟨v, ho, hv, rfl⟩, _, ⟨ha, rfl⟩, rfl⟩ := h
    exact ⟨_, _, .f21h hf hr ha ho hv, rfl⟩
  case f21c =>
    obtain ⟨a, hr, _, hx, _, ⟨hi, rfl⟩, _, ⟨ha, rfl⟩, rfl⟩ := h
    exact ⟨_, _, .f21c hf hr ha hx hi, rfl⟩
  case f23x =>
    obtain ⟨a, b, c, hr, _, ⟨ha, rfl⟩, _, ⟨hb, rfl⟩, _, ⟨hc, rfl⟩, rfl⟩ := h
    exact ⟨_, _, .f23x hf hr ha hb hc, rfl⟩
  case f22b =>
    obtain ⟨a, b, hr, _, ⟨v, ho, hv, rfl⟩, _, ⟨ha, rfl⟩, _, ⟨hb, rfl⟩, rfl⟩ := h
    exact ⟨_, _, .f22b hf hr ha hb ho hv, rfl⟩
  case f22t =>
    obtain ⟨a, b, hr, _, ⟨ha, rfl⟩, _, ⟨hb, rfl⟩, _, ⟨d, ho, hd, rfl⟩, rfl⟩ := h
    exact ⟨_, _, .f22t hf hr ha hb ho hd, rfl⟩
  case f22s =>
    obtain ⟨a, b, hr, _, ⟨ha, rfl⟩, _, ⟨hb, rfl⟩, _, ⟨v, ho, hv, rfl⟩, rfl⟩ := h
    exact ⟨_, _, .f22s hf hr ha hb ho hv, rfl⟩
  case f22c =>
    obtain ⟨a, b, hr, _, hx, _, ⟨hi, rfl⟩, _, ⟨ha, rfl⟩, _, ⟨hb, rfl⟩, rfl⟩ := h
    exact ⟨_, _, .f22c hf hr ha hb hx hi, rfl⟩
  case f32x =>
    obtain ⟨a, b, hr, rfl⟩ := h
    exact ⟨_, _, .f32x hf hr, rfl⟩
  case f30t =>
    obtain ⟨_, hr, _, ⟨d, ho, -, rfl⟩, rfl⟩ := h
    exact ⟨_, _, .f30t hf hr ho, rfl⟩
  case f31t =>
    obtain ⟨a, hr, _, ⟨ha, rfl⟩, _, ⟨d, ho, -, rfl⟩, rfl⟩ := h
    exact ⟨_, _, .f31t hf hr ha ho, rfl⟩
  case f31i =>
    obtain ⟨a, hr, _, ⟨ha, rfl⟩, _, ⟨v, ho, hv, rfl⟩, rfl⟩ := h
    exact ⟨_, _, .f31i hf hr ha ho hv, rfl⟩
  case f31c =>
    obtain ⟨a, hr, _, hx, _, ⟨ha, rfl⟩, rfl⟩ := h
    exact ⟨_, _, .f31c hf hr ha hx, rfl⟩
  case f35c =>
    obtain ⟨_, _, ⟨hl, hr, rfl, rfl⟩, _, hx, _, ⟨hi, rfl⟩, rfl⟩ := h
    exact ⟨_, _, .f35c hf hl hr hx hi, rfl⟩
  case f45cc =>
    obtain ⟨_, _, ⟨hl, hr, rfl, rfl⟩, _, hx, _, ⟨hi, rfl⟩, _, hy, _, ⟨hp, rfl⟩, rfl⟩ := h
    exact ⟨_, _, .f45cc hf hl hr hx hi hy hp, rfl⟩
  case f3rc =>
    obtain ⟨_, _, ⟨hr, rfl, rfl⟩, _, hx, _, ⟨hi, rfl⟩, rfl⟩ := h
    exact ⟨_, _, .f3rc hf hr hx hi, rfl⟩
  case f4rcc =>
    obtain ⟨_, _, ⟨hr, rfl, rfl⟩, _, hx, _, ⟨hi, rfl⟩, _, hy, _, ⟨hp, rfl⟩, rfl⟩ := h
    exact ⟨_, _, .f4rcc hf hr hx hi hy hp, rfl⟩
  case f51l =>
    obtain ⟨a, hr, _, ⟨v, ho, -, rfl⟩, _, ⟨ha, rfl⟩, rfl⟩ := h
    exact ⟨_, _, .f51l hf hr ha ho, rfl⟩
  all_goals simp [hf, Format.isPayload] at hp

/-- What is laid out as the table says is what encoding writes. -/
theorem encode_of_layout {ix : Indexer} {i : Instruction} {high : Nat} {tail : List UInt16}
    (h : Layout ix i high tail) : i.encode ix = .ok (i.head high :: tail) := by
  cases h <;>
    simp only [encode, bind_eq_ok, pure_eq_ok, noRegister_eq_ok, oneRegister_eq_ok,
      twoRegisters_eq_ok, threeRegisters_eq_ok, nibble_eq_ok, byte_eq_ok, shortIndex_eq_ok,
      literal_eq_ok, branch_eq_ok, highLiteral_eq_ok, firstIndex_eq_ok, secondIndex_eq_ok,
      packedRegisters_eq_ok, registerRange_eq_ok, Prod.exists, *]
  case f21c hf hr ha hx hi => exact ⟨_, rfl, _, hx, _, ⟨hi, rfl⟩, _, ⟨ha, rfl⟩, rfl⟩
  case f22c hf hr ha hb hx hi =>
    exact ⟨_, _, rfl, _, hx, _, ⟨hi, rfl⟩, _, ⟨ha, rfl⟩, _, ⟨hb, rfl⟩, rfl⟩
  case f30t d hf hr ho => exact ⟨(), trivial, _, ⟨_, rfl, fitsSigned_toInt32 d, rfl⟩, rfl⟩
  case f31t d hf hr ha ho =>
    exact ⟨_, rfl, _, ⟨ha, rfl⟩, _, ⟨_, rfl, fitsSigned_toInt32 d, rfl⟩, rfl⟩
  case f31c hf hr ha hx => exact ⟨_, rfl, _, hx, _, ⟨ha, rfl⟩, rfl⟩
  case f35c hf hl hr hx hi =>
    exact ⟨_, _, ⟨trivial, hr, rfl, rfl⟩, _, hx, _, ⟨hi, rfl⟩, rfl⟩
  case f45cc hf hl hr hx hi hy hp =>
    exact ⟨_, _, ⟨trivial, hr, rfl, rfl⟩, _, hx, _, ⟨hi, rfl⟩, _, hy, _, ⟨hp, rfl⟩, rfl⟩
  case f3rc hf hr hx hi => exact ⟨_, _, ⟨trivial, rfl, rfl⟩, _, hx, _, ⟨hi, rfl⟩, rfl⟩
  case f4rcc hf hr hx hi hy hp =>
    exact ⟨_, _, ⟨trivial, rfl, rfl⟩, _, hx, _, ⟨hi, rfl⟩, _, hy, _, ⟨hp, rfl⟩, rfl⟩
  case f51l v hf hr ha ho =>
    exact ⟨_, rfl, _, ⟨_, rfl, fitsSigned_toInt64 v, rfl⟩, _, ⟨ha, rfl⟩, rfl⟩
  -- the other formats hold no reference and no number of full width
  all_goals simp [*]

/-- **The table is exact.**  Encoding writes what the table says, and fails where no rule of the
table applies. -/
theorem encode_eq_ok_iff {ix : Indexer} {i : Instruction} {units : List UInt16}
    (hp : i.format.isPayload = false) :
    i.encode ix = .ok units ↔ ∃ high tail, Layout ix i high tail ∧ units = i.head high :: tail := by
  refine ⟨layout_of_encode hp, ?_⟩
  rintro ⟨high, tail, h, rfl⟩
  exact encode_of_layout h

end Instruction

end Dalvik
