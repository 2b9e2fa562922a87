/-
# What encoding accepts

An instruction that was built has an operand that was checked, by ranges and pools that the encoder
states once more in code of its own.  The two agree: encoding fails only for the registers, for the
indices of the references and for the size of a table.  What is asked of these is said here apart
from the encoder.

* `Writable`: what is asked of an instruction;
* `Refusal`: what is said against an instruction that does not meet it;
* `Built.refusal_of_encode`: encoding says nothing else;
* `encode_iff_writable`: the main statement.
-/
import Dalvik.Proofs.Instruction.Roundtrip

namespace Dalvik

/-! ## 1. What is asked of an instruction -/

namespace Format

/-- Whether a format takes a range of registers. -/
def isRange : Format → Bool
  | .f3rc | .f4rcc => true
  | _ => false

/-- The bits of each field for a register, where a format has a fixed number of them. -/
def registerFields : Format → List Nat
  | .f11n => [4]
  | .f11x | .f21t | .f21s | .f21h | .f21c | .f31t | .f31i | .f31c | .f51l => [8]
  | .f12x | .f22t | .f22s | .f22c => [4, 4]
  | .f22x => [8, 16]
  | .f22b => [8, 8]
  | .f32x => [16, 16]
  | .f23x => [8, 8, 8]
  | _ => []

/-- Whether a format takes that many registers. -/
def Takes (format : Format) (count : Nat) : Prop :=
  match format with
  | .f35c | .f45cc => count ≤ 5
  | .f3rc | .f4rcc => count ≤ 255
  | _ => count = format.registerFields.length

/-- The bits of each field for that many registers. -/
def fieldsFor (format : Format) (count : Nat) : List Nat :=
  match format with
  | .f35c | .f45cc => List.replicate count 4
  | .f3rc | .f4rcc => List.replicate count 16
  | _ => format.registerFields

end Format

/-- What a table among the code has to be: a switch of at most 65535 entries, with as many keys as
targets, or array data of fewer than 2^32 whole elements. -/
def Operand.TableFits : Operand → Prop
  | .packedSwitch _ targets => targets.length ≤ 65535
  | .sparseSwitch keys targets => keys.length = targets.length ∧ keys.length ≤ 65535
  | .arrayData elementWidth data => elementWidth ∈ [1, 2, 4, 8] ∧
      ∃ count < 4294967296, data.length = count * elementWidth.toNat
  | _ => True

theorem Operand.tableFits_of_not_table {operand : Operand} (h : operand.isTable = false) :
    operand.TableFits := by
  cases operand with
  | packedSwitch | sparseSwitch | arrayData => cases h
  | _ => trivial

theorem isElementWidth_iff {width : UInt16} :
    isElementWidth width = true ↔ width ∈ [1, 2, 4, 8] := by
  simp [isElementWidth, or_assoc]

theorem Operand.tableFits_arrayData {elementWidth : UInt16} {data : List UInt8} :
    (arrayData elementWidth data).TableFits ↔
      holdsElements elementWidth data = true ∧
        data.length / elementWidth.toNat < 4294967296 := by
  rw [holdsElements_iff, isElementWidth_iff, and_assoc, TableFits]
  refine and_congr_right fun hw => ?_
  have hpos := isElementWidth_pos (isElementWidth_iff.mpr hw)
  constructor
  · rintro ⟨count, hc, hl⟩
    rw [hl, Nat.mul_mod_left, Nat.mul_div_cancel _ hpos]
    exact ⟨rfl, hc⟩
  · rintro ⟨hm, hc⟩
    exact ⟨_, hc, (Nat.div_mul_cancel (Nat.dvd_of_mod_eq_zero hm)).symm⟩

namespace Instruction

/-- The registers are as many as the format takes, each within the bits of its field, and those of a
range follow one another. -/
structure RegistersFit (i : Instruction) : Prop where
  count : i.format.Takes i.registers.length
  wide : ∀ p ∈ (i.format.fieldsFor i.registers.length).zip i.registers, p.2.toNat < pow2 p.1
  consecutive : i.format.isRange = true → i.registers.map UInt16.toNat =
    List.range' (i.registers.headD 0).toNat i.registers.length

/-- Every reference has an index, of 16 bits in all formats but one. -/
def ReferencesFit (ix : Indexer) (i : Instruction) : Prop :=
  ∀ r ∈ i.references, ∃ index, ix r = .ok index ∧ (i.format ≠ .f31c → index.toNat ≤ 0xFFFF)

/-- **What encoding asks of an instruction** whose operand fits it. -/
structure Writable (ix : Indexer) (i : Instruction) : Prop where
  registers : i.RegistersFit
  references : i.ReferencesFit ix
  table : i.operand.TableFits

/-! ## 2. What is said against an instruction -/

/-- **What encoding says against an instruction whose operand fits it.** -/
inductive Refusal (ix : Indexer) (i : Instruction) : Error → Prop
  /-- The format has another number of fields. -/
  | count {n : Nat} (hn : i.format.registerFields.length = n)
      (h : ¬ i.format.Takes i.registers.length) :
      Refusal ix i (.malformed s!"{i.mnemonic} takes {n} registers, got {i.registers.length}")
  /-- There are more registers than can be packed. -/
  | tooMany (hl : 5 < i.registers.length) (h : ¬ i.format.Takes i.registers.length) :
      Refusal ix i (.malformed s!"{i.mnemonic} takes at most 5 registers, got {i.registers.length}")
  /-- A range is too long. -/
  | tooLong (hl : 255 < i.registers.length) (h : ¬ i.format.Takes i.registers.length) :
      Refusal ix i (.malformed s!"register range of {i.registers.length} exceeds 255")
  /-- A register is too large for its field. -/
  | wide {bits : Nat} {r : UInt16}
      (hr : (bits, r) ∈ (i.format.fieldsFor i.registers.length).zip i.registers)
      (h : pow2 bits ≤ r.toNat) :
      Refusal ix i (.malformed s!"register v{r} does not fit in {bits} bits")
  /-- The registers of a range do not follow one another. -/
  | scattered (hr : i.format.isRange = true)
      (h : i.registers.map UInt16.toNat ≠
        List.range' (i.registers.headD 0).toNat i.registers.length) :
      Refusal ix i (.malformed
        s!"{i.mnemonic} registers {Text.bracketed (i.registers.map toString)} are not contiguous")
  /-- A reference has no index. -/
  | unresolved {r : Reference} {e : Error} (hr : r ∈ i.references) (h : ix r = .error e) :
      Refusal ix i e
  /-- The index of a reference is too large for its field. -/
  | wideIndex {r : Reference} {index : UInt32} (hr : r ∈ i.references) (h : ix r = .ok index)
      (hf : i.format ≠ .f31c) (hi : 0xFFFF < index.toNat) :
      Refusal ix i (.malformed s!"pool index {index} exceeds 16 bits")
  /-- A switch has too many entries. -/
  | packedSize {firstKey : Int32} {targets : List Int32}
      (ho : i.operand = .packedSwitch firstKey targets) (h : 65535 < targets.length) :
      Refusal ix i (.malformed s!"switch table of {targets.length} entries")
  /-- A switch has too many keys. -/
  | sparseSize {keys targets : List Int32} (ho : i.operand = .sparseSwitch keys targets)
      (h : 65535 < keys.length) :
      Refusal ix i (.malformed s!"switch table of {keys.length} entries")
  /-- A switch has another number of keys than of targets. -/
  | sparseKeys {keys targets : List Int32} (ho : i.operand = .sparseSwitch keys targets)
      (h : keys.length ≠ targets.length) :
      Refusal ix i (.malformed
        s!"sparse switch has {keys.length} keys and {targets.length} targets")
  /-- Array data does not hold whole elements. -/
  | elements {elementWidth : UInt16} {data : List UInt8}
      (ho : i.operand = .arrayData elementWidth data)
      (h : holdsElements elementWidth data = false) :
      Refusal ix i (.malformed (unevenArray elementWidth data))
  /-- Array data holds too many elements. -/
  | arraySize {elementWidth : UInt16} {data : List UInt8}
      (ho : i.operand = .arrayData elementWidth data)
      (h : 4294967296 ≤ data.length / elementWidth.toNat) :
      Refusal ix i (.malformed "array data too large")

/-! ## 3. The parts of an encoder -/

section Parts

variable {ix : Indexer} {i : Instruction}

/-! ### Registers -/

theorem failsWith_registerMismatch {α : Type} {n : Nat}
    (hn : i.format.registerFields.length = n) (ht : ∀ k, i.format.Takes k ↔ k = n)
    (h : i.registers.length ≠ n) :
    FailsWith (Refusal ix i) (i.registerMismatch n : Except Error α) :=
  failsWith_error.mpr (.count hn fun hk => h ((ht _).mp hk))

theorem failsWith_noRegister (hn : i.format.registerFields.length = 0)
    (ht : ∀ k, i.format.Takes k ↔ k = 0) : FailsWith (Refusal ix i) i.noRegister := by
  unfold noRegister
  split
  case h_1 => exact failsWith_ok
  case h_2 hne =>
    exact failsWith_registerMismatch hn ht fun h => hne (List.length_eq_zero_iff.mp h)

theorem failsWith_oneRegister (hn : i.format.registerFields.length = 1)
    (ht : ∀ k, i.format.Takes k ↔ k = 1) : FailsWith (Refusal ix i) i.oneRegister := by
  unfold oneRegister
  split
  case h_1 => exact failsWith_ok
  case h_2 hne =>
    refine failsWith_registerMismatch hn ht fun h => ?_
    obtain ⟨a, ha⟩ := List.length_eq_one_iff.mp h
    exact hne a ha

theorem failsWith_twoRegisters (hn : i.format.registerFields.length = 2)
    (ht : ∀ k, i.format.Takes k ↔ k = 2) : FailsWith (Refusal ix i) i.twoRegisters := by
  unfold twoRegisters
  split
  case h_1 => exact failsWith_ok
  case h_2 hne =>
    refine failsWith_registerMismatch hn ht fun h => ?_
    obtain ⟨a, b, hab⟩ := List.length_eq_two.mp h
    exact hne a b hab

theorem failsWith_threeRegisters (hn : i.format.registerFields.length = 3)
    (ht : ∀ k, i.format.Takes k ↔ k = 3) : FailsWith (Refusal ix i) i.threeRegisters := by
  unfold threeRegisters
  split
  case h_1 => exact failsWith_ok
  case h_2 hne =>
    refine failsWith_registerMismatch hn ht fun h => ?_
    obtain ⟨a, b, c, habc⟩ := List.length_eq_three.mp h
    exact hne a b c habc

theorem failsWith_wideRegister {bits : Nat} {r : UInt16} {rest : String}
    (hm : " does not fit in " ++ (toString bits ++ " bits") = rest)
    (hr : (bits, r) ∈ (i.format.fieldsFor i.registers.length).zip i.registers)
    (h : ¬ r.toNat < pow2 bits) :
    FailsWith (Refusal ix i)
      (.error (.malformed ("register v" ++ toString r ++ rest)) : Except Error Nat) := by
  have hrefusal : Refusal ix i _ := .wide hr (Nat.le_of_not_lt h)
  rw [String.append_assoc, String.append_assoc] at hrefusal
  subst hm
  exact failsWith_error.mpr hrefusal

theorem failsWith_nibble {r : UInt16}
    (hr : (4, r) ∈ (i.format.fieldsFor i.registers.length).zip i.registers) :
    FailsWith (Refusal ix i) (nibble r) := by
  unfold nibble
  split
  case isTrue => exact failsWith_ok
  case isFalse h =>
    exact failsWith_wideRegister rfl hr fun hlt => h (UInt16.lt_iff_toNat_lt.mpr hlt)

theorem failsWith_byte {r : UInt16}
    (hr : (8, r) ∈ (i.format.fieldsFor i.registers.length).zip i.registers) :
    FailsWith (Refusal ix i) (byte r) := by
  unfold byte
  split
  case isTrue => exact failsWith_ok
  case isFalse h =>
    exact failsWith_wideRegister rfl hr fun hlt => h (UInt16.lt_iff_toNat_lt.mpr hlt)

theorem failsWith_packedRegisters (ht : ∀ k, i.format.Takes k ↔ k ≤ 5)
    (hb : ∀ k, i.format.fieldsFor k = List.replicate k 4) :
    FailsWith (Refusal ix i) i.packedRegisters := by
  unfold packedRegisters
  split
  case isTrue h =>
    simp only [failsWith_bind, failsWith_throw, throw_ne_ok, false_implies, implies_true, and_true]
    exact .tooMany h fun hk => absurd ((ht _).mp hk) (by omega)
  case isFalse =>
    have hnibbles : FailsWith (Refusal ix i) (i.registers.mapM nibble) := by
      refine failsWith_mapM fun r hr => failsWith_nibble ?_
      rw [hb, ← List.map_const', ← List.map_prod_right_eq_zip]
      exact List.mem_map_of_mem hr
    simpa using hnibbles

theorem failsWith_registerRange (ht : ∀ k, i.format.Takes k ↔ k ≤ 255)
    (hr : i.format.isRange = true) : FailsWith (Refusal ix i) i.registerRange := by
  unfold registerRange
  dsimp only
  split
  case isTrue h =>
    exact failsWith_error.mpr (.tooLong h fun hk => absurd ((ht _).mp hk) (by omega))
  case isFalse =>
    split
    case isTrue h => exact failsWith_error.mpr (.scattered hr (by simpa using h))
    case isFalse => exact failsWith_ok

/-! ### Operands -/

theorem failsWith_tableSize {count : Nat} {P : Error → Prop}
    (h : 65535 < count → P (.malformed s!"switch table of {count} entries")) :
    FailsWith P (tableSize count) := by
  unfold tableSize
  split
  case isTrue => exact failsWith_ok
  case isFalse hc => exact failsWith_error.mpr (h (by omega))

/-- A number that fits is not refused. -/
theorem failsWith_literal {bits : Nat} {P : Error → Prop} (hb : i.format.literalBits? = some bits)
    (hf : i.fits i.operand = true) : FailsWith P (i.literal bits) := by
  obtain ⟨v, ho, hv⟩ := (fits_literal_iff hb).mp hf
  exact failsWith_of_ok (literal_eq_ok.mpr ⟨v, ho, hv, rfl⟩)

theorem failsWith_highLiteral {P : Error → Prop} (hh : i.format = .f21h)
    (hf : i.fits i.operand = true) : FailsWith P i.highLiteral := by
  obtain ⟨v, ho, hv⟩ := (fits_high_iff hh).mp hf
  exact failsWith_of_ok (highLiteral_eq_ok.mpr ⟨v, ho, hv, rfl⟩)

theorem failsWith_branch {bits : Nat} {P : Error → Prop} (hb : i.format.deltaBits? = some bits)
    (hf : i.fits i.operand = true) : FailsWith P (i.branch bits) := by
  obtain ⟨d, ho, hd⟩ := (fits_delta_iff hb).mp hf
  exact failsWith_of_ok (branch_eq_ok.mpr ⟨d, ho, hd, rfl⟩)

theorem failsWith_indexInto {expected : Option ReferenceKind} {r : Reference}
    (hr : r ∈ i.references) (hk : expected = some r.kind) :
    FailsWith (Refusal ix i) (i.indexInto ix expected r) := by
  have hix : i.indexInto ix expected r = ix r := by simp [indexInto, hk]
  rw [hix]
  exact fun e he => .unresolved hr he

theorem failsWith_firstIndex (hf : i.fits i.operand = true)
    (hc : i.format.referenceCount = 1 ∨ i.format.referenceCount = 2) :
    FailsWith (Refusal ix i) (i.firstIndex ix) := by
  unfold firstIndex
  rcases hc with hc | hc
  · obtain ⟨r, ho, hk⟩ := (fits_reference_iff hc).mp hf
    rw [ho]
    refine failsWith_indexInto (by simp [references, ho]) ?_
    rw [← List.head?_eq_getElem?, hk]
  · obtain ⟨callee, proto, ho, hk⟩ := (fits_dualReference_iff hc).mp hf
    rw [ho, hk]
    exact failsWith_indexInto (by simp [references, ho]) rfl

theorem failsWith_secondIndex (hf : i.fits i.operand = true)
    (hc : i.format.referenceCount = 2) : FailsWith (Refusal ix i) (i.secondIndex ix) := by
  obtain ⟨callee, proto, ho, hk⟩ := (fits_dualReference_iff hc).mp hf
  unfold secondIndex
  rw [ho, hk]
  exact failsWith_indexInto (by simp [references, ho]) rfl

theorem failsWith_shortIndex {k : Nat} {index : UInt32} (hx : i.Refers ix k index)
    (hf : i.format ≠ .f31c) : FailsWith (Refusal ix i) (shortIndex index) := by
  obtain ⟨r, hr, -, hi⟩ := hx
  unfold shortIndex
  split
  case isTrue => exact failsWith_ok
  case isFalse h =>
    refine failsWith_error.mpr (.wideIndex (List.mem_of_getElem? hr) hi hf ?_)
    exact Nat.lt_of_not_le fun hle => h (UInt32.lt_iff_toNat_lt.mpr (Nat.lt_succ_of_le hle))

theorem failsWith_shortIndex_first {index : UInt32} (h : i.firstIndex ix = .ok index)
    (hf : i.format ≠ .f31c) : FailsWith (Refusal ix i) (shortIndex index) :=
  failsWith_shortIndex (firstIndex_eq_ok.mp h) hf

theorem failsWith_shortIndex_second {index : UInt32} (h : i.secondIndex ix = .ok index)
    (hf : i.format ≠ .f31c) : FailsWith (Refusal ix i) (shortIndex index) :=
  failsWith_shortIndex (secondIndex_eq_ok.mp h) hf

end Parts

/-! ## 4. What encoding refuses -/

section Refused

variable {ix : Indexer} {i : Instruction}

theorem Regular.refusal_of_encode (hi : i.Regular) : FailsWith (Refusal ix i) (i.encode ix) := by
  have hfits := hi.fits
  cases hf : i.format
  case packedSwitch | sparseSwitch | arrayData =>
    have hp := isPayload_eq_false hi.format
    rw [hf] at hp
    cases hp
  -- encoding runs the parts of the format in a row, and none of them fails otherwise
  all_goals simp +contextual [encode, hf, hfits, Prod.forall, oneRegister_eq_ok,
    twoRegisters_eq_ok, threeRegisters_eq_ok, failsWith_noRegister, failsWith_oneRegister,
    failsWith_twoRegisters, failsWith_threeRegisters, failsWith_nibble, failsWith_byte,
    failsWith_packedRegisters, failsWith_registerRange, failsWith_literal,
    failsWith_highLiteral, failsWith_branch, failsWith_firstIndex, failsWith_secondIndex,
    failsWith_shortIndex_first, failsWith_shortIndex_second, Format.Takes, Format.isRange,
    Format.fieldsFor, Format.registerFields, Format.literalBits?, Format.deltaBits?,
    Format.referenceCount]

theorem IsTable.refusal_of_encode (hi : i.IsTable) : FailsWith (Refusal ix i) (i.encode ix) := by
  cases hi with
  | packedSwitch firstKey targets =>
    simp only [encode, packedSwitchPayload, failsWith_bind, failsWith_pure, implies_true, and_true]
    exact failsWith_tableSize fun h => .packedSize rfl h
  | sparseSwitch keys targets =>
    simp only [encode, sparseSwitchPayload]
    by_cases hl : keys.length = targets.length
    · simp only [hl, bne_self_eq_false, Bool.false_eq_true, if_false, failsWith_bind,
        failsWith_pure, implies_true, and_true]
      rw [← hl]
      exact failsWith_tableSize fun h => .sparseSize rfl h
    · rw [if_pos (by simpa using hl)]
      simp only [failsWith_bind, failsWith_throw]
      exact ⟨.sparseKeys rfl hl, fun _ h => absurd h throw_ne_ok⟩
  | arrayData elementWidth data =>
    simp only [encode, arrayDataPayload]
    cases hh : holdsElements elementWidth data with
    | false =>
      simp only [Bool.not_false, if_true, failsWith_bind, failsWith_throw]
      exact ⟨.elements rfl hh, fun _ h => absurd h throw_ne_ok⟩
    | true =>
      simp only [Bool.not_true, Bool.false_eq_true, if_false]
      by_cases hc : 4294967296 ≤ data.length / elementWidth.toNat
      · simp only [hc, if_true, failsWith_bind, failsWith_throw]
        exact ⟨.arraySize rfl hc, fun _ h => absurd h throw_ne_ok⟩
      · simp only [hc, if_false, failsWith_pure]

theorem Built.refusal_of_encode (hi : i.Built) : FailsWith (Refusal ix i) (i.encode ix) :=
  hi.regular_or_table.elim Regular.refusal_of_encode IsTable.refusal_of_encode

/-- Nothing is said against an instruction that meets what is asked. -/
theorem Writable.not_refusal {e : Error} (hw : i.Writable ix) : ¬ Refusal ix i e := by
  intro h
  have ht := hw.table
  cases h with
  | count _ h | tooMany _ h | tooLong _ h => exact h hw.registers.count
  | wide hr h => exact absurd (hw.registers.wide _ hr) (Nat.not_lt.mpr h)
  | scattered hr h => exact h (hw.registers.consecutive hr)
  | unresolved hr h =>
    obtain ⟨index, hx, -⟩ := hw.references _ hr
    rw [h] at hx
    cases hx
  | wideIndex hr h hf hi =>
    obtain ⟨index, hx, hle⟩ := hw.references _ hr
    obtain rfl := Except.ok.inj (h.symm.trans hx)
    exact absurd (hle hf) (Nat.not_le.mpr hi)
  | packedSize ho h =>
    rw [ho] at ht
    exact absurd ht (Nat.not_le.mpr h)
  | sparseSize ho h =>
    rw [ho] at ht
    exact absurd ht.2 (Nat.not_le.mpr h)
  | sparseKeys ho h =>
    rw [ho] at ht
    exact h ht.1
  | elements ho h =>
    rw [ho, Operand.tableFits_arrayData] at ht
    rw [ht.1] at h
    cases h
  | arraySize ho h =>
    rw [ho, Operand.tableFits_arrayData] at ht
    exact absurd ht.2 (Nat.not_lt.mpr h)

end Refused

/-! ## 5. What is written -/

section Written

variable {ix : Indexer} {i : Instruction} {high : Nat} {tail : List UInt16}

theorem wide_of_replicate {registers : List UInt16} {count bits : Nat}
    (h : ∀ r ∈ registers, r.toNat < pow2 bits) :
    ∀ p ∈ (List.replicate count bits).zip registers, p.2.toNat < pow2 p.1 := by
  rintro ⟨_, r⟩ hp
  obtain ⟨hb, hr⟩ := List.of_mem_zip hp
  obtain rfl := List.eq_of_mem_replicate hb
  exact h r hr

theorem registersFit_of_packed (hf : i.format = .f35c ∨ i.format = .f45cc)
    (hl : i.registers.length ≤ 5) (hr : ∀ r ∈ i.registers, r.toNat < 16) : i.RegistersFit where
  count := by rcases hf with hf | hf <;> rwa [hf]
  wide := by rcases hf with hf | hf <;> rw [hf] <;> exact wide_of_replicate hr
  consecutive hc := by rcases hf with hf | hf <;> rw [hf] at hc <;> cases hc

theorem registersFit_of_isRange (hf : i.format = .f3rc ∨ i.format = .f4rcc)
    (hr : IsRange i.registers) : i.RegistersFit where
  count := by rcases hf with hf | hf <;> rw [hf] <;> exact hr.1
  wide := by
    rcases hf with hf | hf <;> rw [hf] <;> exact wide_of_replicate fun r _ => r.toNat_lt
  consecutive _ := hr.2

theorem Layout.registersFit (h : Layout ix i high tail) : i.RegistersFit := by
  have hword (r : UInt16) : r.toNat < 65536 := r.toNat_lt
  cases h
  case f35c hf hl hr _ _ => exact registersFit_of_packed (.inl hf) hl hr
  case f45cc hf hl hr _ _ _ _ => exact registersFit_of_packed (.inr hf) hl hr
  case f3rc hf hr _ _ => exact registersFit_of_isRange (.inl hf) hr
  case f4rcc hf hr _ _ _ _ => exact registersFit_of_isRange (.inr hf) hr
  -- the other formats list their registers one by one
  all_goals
    constructor <;> simp [*, Format.Takes, Format.isRange, Format.fieldsFor,
      Format.registerFields, pow2]

theorem length_references_le (h : i.fits i.operand = true) :
    i.references.length ≤ i.format.referenceCount := by
  cases ho : i.operand with
  | reference r =>
    rw [ho] at h
    simp [references, ho, referenceCount_of_fits h]
  | dualReference callee proto =>
    rw [ho] at h
    simp [references, ho, referenceCount_of_fits_dual h]
  | _ => simp [references, ho]

theorem Layout.referencesFit (hfits : i.fits i.operand = true) (h : Layout ix i high tail) :
    i.ReferencesFit ix := by
  intro r hr
  obtain ⟨k, hk, rfl⟩ := List.mem_iff_getElem.mp hr
  obtain ⟨index, ⟨s, hs, -, hx⟩, hn⟩ := h.refers (hk.trans_le (length_references_le hfits))
  obtain rfl : i.references[k] = s := by simpa [List.getElem?_eq_getElem hk] using hs
  exact ⟨index, hx, fun hf => Nat.le_of_lt_succ (hn hf)⟩

theorem Regular.writable_of_encode {units : List UInt16} (hi : i.Regular)
    (h : i.encode ix = .ok units) : i.Writable ix := by
  obtain ⟨high, tail, hl, -⟩ := layout_of_encode (isPayload_eq_false hi.format) h
  refine ⟨hl.registersFit, hl.referencesFit hi.fits, ?_⟩
  exact Operand.tableFits_of_not_table hi.isTable_eq_false

/-- A payload has neither registers nor references. -/
theorem IsTable.writable_iff (hi : i.IsTable) : i.Writable ix ↔ i.operand.TableFits := by
  refine ⟨Writable.table, fun ht => ⟨?_, ?_, ht⟩⟩
  · cases hi <;> exact ⟨rfl, by simp [packedSwitchPayload, sparseSwitchPayload, arrayDataPayload],
      fun h => absurd h Bool.false_ne_true⟩
  · cases hi <;> exact fun _ h => absurd h List.not_mem_nil

theorem IsTable.writable_of_encode {units : List UInt16} (hi : i.IsTable)
    (h : i.encode ix = .ok units) : i.Writable ix := by
  rw [hi.writable_iff]
  cases hi with
  | packedSwitch firstKey targets =>
    obtain ⟨hl, -⟩ := encode_packedSwitchPayload.mp h
    exact Nat.le_of_lt_succ hl
  | sparseSwitch keys targets =>
    obtain ⟨hk, hl, -⟩ := encode_sparseSwitchPayload.mp h
    exact ⟨hk, Nat.le_of_lt_succ hl⟩
  | arrayData elementWidth data =>
    obtain ⟨hw, hm, hc, -⟩ := encode_arrayDataPayload.mp h
    exact Operand.tableFits_arrayData.mpr ⟨holdsElements_iff.mpr ⟨hw, hm⟩, hc⟩

end Written

/-- **An instruction that was built is written exactly if** its registers, its references and its
table are as they should be, and then it takes as many units as it is wide.  Otherwise a fault in
one of these is named, and never a number, a distance or the kind of a reference: these were checked
when the instruction was built. -/
theorem encode_iff_writable {ix : Indexer} {i : Instruction} (hi : i.Built) :
    ((∃ units, i.encode ix = .ok units) ↔ i.Writable ix) ∧
      (∀ units, i.encode ix = .ok units → units.length = i.width) ∧
      ∀ e, i.encode ix = .error e → Refusal ix i e := by
  refine ⟨⟨?_, fun hw => ?_⟩, fun _ => length_of_encode hi.regular_or_table,
    hi.refusal_of_encode⟩
  · rintro ⟨units, h⟩
    exact hi.regular_or_table.elim (fun hr => hr.writable_of_encode h)
      fun ht => ht.writable_of_encode h
  · cases h : i.encode ix with
    | ok units => exact ⟨units, rfl⟩
    | error e => exact absurd (hi.refusal_of_encode e h) hw.not_refusal

/-- The fields of this call hold the registers up to 15. -/
theorem encode_iff_writable_staticCall :
    let call (last : UInt16) : Instruction :=
      { opcode := 0x71, format := .f35c, registers := [3, last],
        operand := .reference (.raw .method 7) }
    (call 15).Built ∧ (call 15).Writable Indexer.rawIndices ∧
      (call 16).Built ∧ ∀ units, (call 16).encode Indexer.rawIndices ≠ .ok units := by
  intro call
  have hlow : build? 0x71 [3, 15] (call 15).operand = .ok (call 15) := by decide +kernel
  have hhigh : build? 0x71 [3, 16] (call 16).operand = .ok (call 16) := by decide +kernel
  have hunits : (call 15).encode Indexer.rawIndices = .ok [0x2071, 0x0007, 0x00F3] := by
    decide +kernel
  refine ⟨.checked hlow, (encode_iff_writable (.checked hlow)).1.mp ⟨_, hunits⟩,
    .checked hhigh, fun units h => ?_⟩
  have hw := (encode_iff_writable (.checked hhigh)).1.mp ⟨units, h⟩
  exact absurd (hw.registers.wide (4, 16) (by decide)) (by decide)

end Instruction

end Dalvik
