/-
# Tables among the code

The three payloads are written in front of whatever code follows them, and are read from there: a
payload that encoding writes is read back, and a payload that is read is written again unit for
unit.

Main statements: `decodePayload_of_encode` and `encode_of_decodePayload`.
-/
import Dalvik.Proofs.Instruction.Packing
import Dalvik.Proofs.Outcome

namespace Dalvik

/-! ## 1. What the parts accept -/

theorem tableSize_eq_ok {count : Nat} {size : UInt16} :
    tableSize count = .ok size ↔ count < 65536 ∧ count.toUInt16 = size := by
  by_cases h : count < 65536 <;> simp [tableSize, h]

theorem holdsElements_iff {width : UInt16} {data : List UInt8} :
    holdsElements width data = true ↔
      isElementWidth width = true ∧ data.length % width.toNat = 0 := by
  simp [holdsElements]

theorem isElementWidth_pos {width : UInt16} (h : isElementWidth width = true) :
    0 < width.toNat := by
  rw [Nat.pos_iff_ne_zero]
  intro hz
  have hw : width = 0 := by
    rw [← UInt16.toNat_inj]
    exact hz
  subst hw
  exact absurd h (by decide)

namespace Instruction

/-- The payloads. -/
inductive IsTable : Instruction → Prop
  | packedSwitch (firstKey : Int32) (targets : List Int32) :
      IsTable (packedSwitchPayload firstKey targets)
  | sparseSwitch (keys targets : List Int32) : IsTable (sparseSwitchPayload keys targets)
  | arrayData (elementWidth : UInt16) (data : List UInt8) :
      IsTable (arrayDataPayload elementWidth data)

/-! ## 2. Writing -/

theorem encode_packedSwitchPayload {ix : Indexer} {firstKey : Int32} {targets : List Int32}
    {units : List UInt16} :
    (packedSwitchPayload firstKey targets).encode ix = .ok units ↔
      targets.length < 65536 ∧
        packedSwitchMark :: targets.length.toUInt16 :: (wordUnits firstKey.toInt ++
          targets.flatMap fun d => wordUnits d.toInt) = units := by
  simp only [encode, packedSwitchPayload, bind_eq_ok, pure_eq_ok, tableSize_eq_ok]
  constructor
  · rintro ⟨_, ⟨hl, rfl⟩, h⟩
    exact ⟨hl, h⟩
  · rintro ⟨hl, h⟩
    exact ⟨_, ⟨hl, rfl⟩, h⟩

theorem encode_sparseSwitchPayload {ix : Indexer} {keys targets : List Int32}
    {units : List UInt16} :
    (sparseSwitchPayload keys targets).encode ix = .ok units ↔
      keys.length = targets.length ∧ keys.length < 65536 ∧
        sparseSwitchMark :: keys.length.toUInt16 ::
          (keys ++ targets).flatMap (fun v => wordUnits v.toInt) = units := by
  simp only [encode, sparseSwitchPayload]
  by_cases hl : keys.length = targets.length
  · simp only [hl, bne_self_eq_false, Bool.false_eq_true, if_false, bind_eq_ok, tableSize_eq_ok,
      pure_eq_ok, true_and]
    constructor
    · rintro ⟨_, ⟨h, rfl⟩, hu⟩
      exact ⟨h, hu⟩
    · rintro ⟨h, hu⟩
      exact ⟨_, ⟨h, rfl⟩, hu⟩
  · simp [hl, bind_eq_ok, throw_ne_ok]

theorem encode_arrayDataPayload {ix : Indexer} {elementWidth : UInt16} {data : List UInt8}
    {units : List UInt16} :
    (arrayDataPayload elementWidth data).encode ix = .ok units ↔
      isElementWidth elementWidth = true ∧ data.length % elementWidth.toNat = 0 ∧
        data.length / elementWidth.toNat < 4294967296 ∧
          arrayDataMark :: elementWidth ::
            (wordUnits (data.length / elementWidth.toNat : Nat) ++ unitsOfBytes [] data) =
              units := by
  simp only [encode, arrayDataPayload]
  by_cases hh : holdsElements elementWidth data = true
  · obtain ⟨hw, hm⟩ := holdsElements_iff.mp hh
    by_cases hc : data.length / elementWidth.toNat < 4294967296
    · have hc' : ¬ 0x100000000 ≤ data.length / elementWidth.toNat := by omega
      simp [hh, hw, hm, hc, hc', pure_eq_ok]
    · have hc' : 0x100000000 ≤ data.length / elementWidth.toNat := by omega
      simp only [hh, hc, hc', Bool.not_true, Bool.false_eq_true, if_false, if_true, bind_eq_ok,
        throw_ne_ok, false_and, and_false, exists_false]
  · simp only [hh, Bool.not_false, if_true, bind_eq_ok, throw_ne_ok, false_and, exists_false,
      false_iff]
    rintro ⟨hw, hm, -⟩
    exact hh (holdsElements_iff.mpr ⟨hw, hm⟩)

/-! ## 3. Reading what was written -/

theorem decodePayload_packedSwitch {offset : Nat} {size low high : UInt16} {table : List UInt16} :
    decodePayload offset (packedSwitchMark :: size :: low :: high :: table) =
      if table.length < 2 * size.toNat then .error .outOfBounds
      else .ok (packedSwitchPayload (signedWord low high)
        (signedWords (table.take (2 * size.toNat))), 4 + 2 * size.toNat) :=
  rfl

theorem decodePayload_sparseSwitch {offset : Nat} {size : UInt16} {table : List UInt16} :
    decodePayload offset (sparseSwitchMark :: size :: table) =
      if table.length < 2 * (2 * size.toNat) then .error .outOfBounds
      else .ok (sparseSwitchPayload (signedWords (table.take (2 * size.toNat)))
        (signedWords ((table.drop (2 * size.toNat)).take (2 * size.toNat))),
        2 + 2 * (2 * size.toNat)) :=
  rfl

theorem decodePayload_arrayData_eq {offset size length : Nat} {elementWidth low high : UInt16}
    {table : List UInt16} {data : List UInt8} (hs : wordOf low high * elementWidth.toNat = size)
    (hn : (size + 1) / 2 = length) (hb : bytesOfUnits (table.take length) = data) :
    decodePayload offset (arrayDataMark :: elementWidth :: low :: high :: table) =
      if !isElementWidth elementWidth then
        .error (.malformed s!"array data at {offset} has {elementWidth}-byte elements")
      else if table.length < length then .error .outOfBounds
      else if data.getD size 0 != 0 then
        .error (.malformed s!"array data at {offset} has nonzero padding")
      else .ok (arrayDataPayload elementWidth (data.take size), 4 + length) := by
  subst hb hn hs
  rfl

theorem decodePayload_arrayData {offset size : Nat} {elementWidth low high : UInt16}
    {table : List UInt16} {i : Instruction} {width : Nat}
    (hs : wordOf low high * elementWidth.toNat = size) :
    decodePayload offset (arrayDataMark :: elementWidth :: low :: high :: table) =
        .ok (i, width) ↔
      isElementWidth elementWidth = true ∧ (size + 1) / 2 ≤ table.length ∧
        (bytesOfUnits (table.take ((size + 1) / 2))).getD size 0 = 0 ∧
        arrayDataPayload elementWidth
          ((bytesOfUnits (table.take ((size + 1) / 2))).take size) = i ∧
        4 + (size + 1) / 2 = width := by
  generalize hn : (size + 1) / 2 = length
  generalize hb : bytesOfUnits (table.take length) = data
  rw [decodePayload_arrayData_eq hs hn hb]
  by_cases hw : isElementWidth elementWidth = true
  · by_cases hl : table.length < length
    · have hl' : ¬ length ≤ table.length := by omega
      simp [hw, hl, hl']
    · have hl' : length ≤ table.length := by omega
      by_cases hz : data.getD size 0 = 0
      · simp only [hw, hl, hl', hz, Bool.not_true, Bool.false_eq_true, bne_self_eq_false,
          if_false, Except.ok.injEq, Prod.mk.injEq, true_and]
      · have hz' : (data.getD size 0 != 0) = true := by simpa using hz
        simp only [hw, hl, hz, hz', Bool.not_true, Bool.false_eq_true, if_false, if_true,
          reduceCtorEq, false_and, and_false]
  · simp [hw]

/-- **A payload that was written is read back**, whatever code follows it. -/
theorem decodePayload_of_encode {ix : Indexer} {i : Instruction} {units : List UInt16}
    (hi : i.IsTable) (h : i.encode ix = .ok units) (offset : Nat) (rest : List UInt16) :
    decodePayload offset (units ++ rest) = .ok (i, units.length) := by
  cases hi with
  | packedSwitch firstKey targets =>
    obtain ⟨hl, rfl⟩ := encode_packedSwitchPayload.mp h
    have hn := length_tableUnits targets
    rw [wordUnits]
    simp only [List.cons_append, List.nil_append, decodePayload_packedSwitch,
      toNat_toUInt16 hl, signedWord_wordUnits]
    rw [if_neg (by rw [List.length_append]; omega), ← hn, List.take_left, signedWords_flatMap]
    simp only [List.length_cons]
    congr 2
    omega
  | sparseSwitch keys targets =>
    obtain ⟨he, hl, rfl⟩ := encode_sparseSwitchPayload.mp h
    have hk := length_tableUnits keys
    have ht := length_tableUnits targets
    simp only [List.cons_append, List.flatMap_append, List.append_assoc,
      decodePayload_sparseSwitch, toNat_toUInt16 hl]
    rw [if_neg (by simp only [List.length_append]; omega), ← hk, List.take_left, List.drop_left,
      hk, he, ← ht, List.take_left, signedWords_flatMap, signedWords_flatMap]
    simp only [List.length_cons, List.length_append]
    congr 2
    omega
  | arrayData elementWidth data =>
    obtain ⟨hw, hm, hc, rfl⟩ := encode_arrayDataPayload.mp h
    have hn := length_unitsOfBytes data
    rw [wordUnits]
    simp only [List.cons_append, List.nil_append]
    have hsize : wordOf (lowUnit (data.length / elementWidth.toNat : Nat))
        (lowUnit ((data.length / elementWidth.toNat : Nat) / 0x10000)) * elementWidth.toNat =
        data.length := by
      rw [wordOf_natCast hc]
      exact Nat.div_mul_cancel (Nat.dvd_of_mod_eq_zero hm)
    refine (decodePayload_arrayData hsize).mpr ⟨hw, ?_, ?_⟩
    · rw [List.length_append]
      omega
    · rw [← hn, List.take_left, bytesOfUnits_unitsOfBytes, List.take_left]
      refine ⟨?_, rfl, ?_⟩
      · rw [List.getD_eq_getElem?_getD, List.getElem?_append_right (Nat.le_refl _), Nat.sub_self]
        rcases Nat.mod_two_eq_zero_or_one data.length with hp | hp <;> rw [hp] <;> rfl
      · simp only [List.length_cons]
        omega

/-! ## 4. Writing what was read -/

/-- What is read as a payload has a mark, and the parts that the mark asks for. -/
theorem decodePayload_cases {offset : Nat} {units : List UInt16} {i : Instruction} {width : Nat}
    (h : decodePayload offset units = .ok (i, width)) :
    (∃ size low high table, units = packedSwitchMark :: size :: low :: high :: table) ∨
      (∃ size table, units = sparseSwitchMark :: size :: table) ∨
      ∃ elementWidth low high table,
        units = arrayDataMark :: elementWidth :: low :: high :: table := by
  unfold decodePayload at h
  split at h
  · cases h
  rename_i mark rest
  by_cases hp : mark = packedSwitchMark
  · subst hp
    rw [if_pos (by simp)] at h
    split at h
    · exact .inl ⟨_, _, _, _, rfl⟩
    · cases h
  rw [if_neg (by simpa using hp)] at h
  by_cases hs : mark = sparseSwitchMark
  · subst hs
    rw [if_pos (by simp)] at h
    split at h
    · exact .inr (.inl ⟨_, _, rfl⟩)
    · cases h
  rw [if_neg (by simpa using hs)] at h
  by_cases ha : mark = arrayDataMark
  · subst ha
    rw [if_pos (by simp)] at h
    split at h
    · exact .inr (.inr ⟨_, _, _, _, rfl⟩)
    · cases h
  rw [if_neg (by simpa using ha)] at h
  cases h

/-- **A payload that was read is written again**, unit for unit. -/
theorem encode_of_decodePayload {offset : Nat} {units : List UInt16} {i : Instruction}
    {width : Nat} (h : decodePayload offset units = .ok (i, width)) (ix : Indexer) :
    i.IsTable ∧ i.encode ix = .ok (units.take width) ∧ width = i.width ∧ width ≤ units.length := by
  obtain ⟨size, low, high, table, rfl⟩ | ⟨size, table, rfl⟩ |
    ⟨elementWidth, low, high, table, rfl⟩ := decodePayload_cases h
  · rw [decodePayload_packedSwitch] at h
    split at h
    · cases h
    obtain ⟨rfl, rfl⟩ := Prod.mk.inj (Except.ok.inj h)
    obtain ⟨ht, hl⟩ := flatMap_signedWords size.toNat (table.take (2 * size.toNat))
      (by rw [List.length_take]; omega)
    refine ⟨.packedSwitch _ _, encode_packedSwitchPayload.mpr ⟨?_, ?_⟩, ?_, ?_⟩
    · rw [hl]
      exact size.toNat_lt
    · rw [hl, ht, toInt_signedWord, wordUnits_signed, toUInt16_toNat, Nat.add_comm 4]
      rfl
    · simp only [width, packedSwitchPayload, hl]
    · simp only [List.length_cons]
      omega
  · rw [decodePayload_sparseSwitch] at h
    split at h
    · cases h
    obtain ⟨rfl, rfl⟩ := Prod.mk.inj (Except.ok.inj h)
    obtain ⟨hk, hkl⟩ := flatMap_signedWords size.toNat (table.take (2 * size.toNat))
      (by rw [List.length_take]; omega)
    obtain ⟨ht, htl⟩ := flatMap_signedWords size.toNat
      ((table.drop (2 * size.toNat)).take (2 * size.toNat))
      (by rw [List.length_take, List.length_drop]; omega)
    refine ⟨.sparseSwitch _ _, encode_sparseSwitchPayload.mpr ⟨?_, ?_, ?_⟩, ?_, ?_⟩
    · rw [hkl, htl]
    · rw [hkl]
      exact size.toNat_lt
    · rw [hkl, List.flatMap_append, hk, ht, toUInt16_toNat, ← List.take_add, Nat.add_comm 2,
        Nat.two_mul (2 * size.toNat)]
      rfl
    · simp only [width, sparseSwitchPayload, hkl]
      omega
    · simp only [List.length_cons]
      omega
  · obtain ⟨hw, hl, hz, rfl, rfl⟩ := (decodePayload_arrayData rfl).mp h
    generalize hs : wordOf low high * elementWidth.toNat = size at *
    have hpos := isElementWidth_pos hw
    have hlen : ((bytesOfUnits (table.take ((size + 1) / 2))).take size).length = size := by
      rw [List.length_take, length_bytesOfUnits, List.length_take]
      omega
    have hdiv : size / elementWidth.toNat = wordOf low high := by
      rw [← hs, Nat.mul_div_cancel _ hpos]
    refine ⟨.arrayData _ _, encode_arrayDataPayload.mpr ⟨hw, ?_, ?_, ?_⟩, ?_, ?_⟩
    · rw [hlen, ← hs, Nat.mul_mod_left]
    · rw [hlen, hdiv]
      exact wordOf_lt low high
    · rw [hlen, hdiv, wordUnits_natCast, unitsOfBytes_take _ _ _ hz, Nat.add_comm 4]
      · rfl
      · rw [List.length_take]
        omega
    · simp only [width, arrayDataPayload, hlen]
    · simp only [List.length_cons]
      omega

end Instruction

end Dalvik
