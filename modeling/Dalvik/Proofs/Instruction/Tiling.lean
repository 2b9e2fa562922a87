/-
# Decoded instructions are valid and tile the stream

What is decoded passes the checks that an instruction passes when it is built, and is as wide as the
units it was read from.  Every step of a decoder over a stream therefore moves on, it comes to an
end on every stream, and the widths of what it read add up to the length of the stream.

* `Regular.build?_eq`, `Regular.ofMnemonic_eq`: a decoded instruction is what building it gives;
* `Scan`: the loop of the decoder as a relation, with no bound on its steps;
* `scan_iff`: the loop ends, and with what decoding the stream gives;
* `decoded_valid_and_tiling`: the main statement.
-/
import Dalvik.Proofs.Instruction.Roundtrip
import Dalvik.Proofs.Sorting

namespace Dalvik

/-! ## 1. Mnemonics -/

namespace Operation

/-- The bytes of a text as one number, which can be compared at once. -/
def textNumber (text : String) : Nat :=
  text.toByteArray.data.toList.foldl (fun n b => 256 * n + b.toNat) 0

/-- The numbers of the mnemonics that are assigned. -/
def mnemonicNumbers : List Nat :=
  (entries.filter isAssigned).map fun o => textNumber o.mnemonic

theorem nodup_mnemonicNumbers : mnemonicNumbers.Nodup := by
  -- in order, each number has to be compared with its neighbour only
  have hchain : (sortUpTo Nat.ble 256 mnemonicNumbers).IsChain (· < ·) := by decide +kernel
  have hlength : mnemonicNumbers.length ≤ 256 := by decide +kernel
  rw [← mergeSort_eq_of_length_le Nat.ble hlength, List.isChain_iff_pairwise] at hchain
  exact (List.mergeSort_perm _ _).nodup_iff.mp (hchain.imp Nat.ne_of_lt)

/-- **No two opcodes share a mnemonic.** -/
theorem pairwise_mnemonic_ne : entries.Pairwise fun o o' =>
    o.isAssigned = true → o'.isAssigned = true → o.mnemonic ≠ o'.mnemonic := by
  have h := nodup_mnemonicNumbers
  rw [mnemonicNumbers, List.Nodup, List.pairwise_map, List.pairwise_filter] at h
  exact h.imp fun hne ha ha' he => hne ha ha' (congrArg textNumber he)

/-- An opcode is found again from its mnemonic. -/
theorem opcode_mnemonic {code : UInt8} (h : (ofOpcode code).isAssigned = true) :
    opcode (ofOpcode code).mnemonic = .ok code := by
  have hplace : entries[code.toNat]? = some (ofOpcode code) := by
    unfold ofOpcode table at h ⊢
    rw [Array.getD_eq_getD_getElem?, List.getElem?_toArray] at h ⊢
    cases ho : entries[code.toNat]? with
    | none =>
      rw [ho] at h
      cases h
    | some o => rfl
  obtain ⟨hlt, ho⟩ := List.getElem?_eq_some_iff.mp hplace
  have hfind : entries.findIdx? (fun o => o.isAssigned && o.mnemonic == (ofOpcode code).mnemonic) =
      some code.toNat := by
    rw [List.findIdx?_eq_some_iff_getElem]
    refine ⟨hlt, by simp [ho, h], fun j hj => ?_⟩
    have hne := List.pairwise_iff_getElem.mp pairwise_mnemonic_ne j code.toNat (by omega) hlt hj
    rw [ho] at hne
    simpa using fun ha => hne ha h
  unfold opcode
  rw [hfind]
  exact congrArg Except.ok UInt8.ofNat_toNat

end Operation

namespace Instruction

/-! ## 2. Decoded instructions can be built -/

theorem checkOperand_of_not_table {i : Instruction} {operand : Operand}
    (hf : i.fits operand = true) (ht : operand.isTable = false) :
    i.checkOperand operand = .ok () := by
  cases operand with
  | packedSwitch | sparseSwitch | arrayData => cases ht
  | _ => simp [checkOperand, hf]

theorem Regular.checkOperand_eq {i : Instruction} (hi : i.Regular) :
    i.checkOperand i.operand = .ok () :=
  checkOperand_of_not_table hi.fits hi.isTable_eq_false

/-- Encoding a payload asks for more than checking it does. -/
theorem IsTable.checkOperand_eq {ix : Indexer} {i : Instruction} {units : List UInt16}
    (hi : i.IsTable) (h : i.encode ix = .ok units) : i.checkOperand i.operand = .ok () := by
  cases hi with
  | packedSwitch firstKey targets => rfl
  | sparseSwitch keys targets =>
    obtain ⟨hl, -⟩ := encode_sparseSwitchPayload.mp h
    simp [checkOperand, fits, sparseSwitchPayload, hl]
  | arrayData elementWidth data =>
    obtain ⟨hw, hm, -⟩ := encode_arrayDataPayload.mp h
    have hd := holdsElements_iff.mpr ⟨hw, hm⟩
    simp [checkOperand, fits, arrayDataPayload, hd]

theorem IsTable.isPayload_eq_true {i : Instruction} (hi : i.IsTable) : i.isPayload = true := by
  cases hi <;> rfl

theorem Regular.build?_eq {i : Instruction} (hi : i.Regular) :
    build? i.opcode i.registers i.operand = .ok i := by
  refine build?_eq_ok.mpr ⟨hi.assigned, ?_, hi.checkOperand_eq⟩
  rw [← hi.format]

theorem Regular.ofMnemonic_eq {i : Instruction} (hi : i.Regular) :
    ofMnemonic i.mnemonic i.registers i.operand = .ok i := by
  have hm : i.mnemonic = (Operation.ofOpcode i.opcode).mnemonic := by
    simp [mnemonic, isPayload_eq_false hi.format]
  rw [hm, ofMnemonic, bind_eq_ok]
  exact ⟨i.opcode, Operation.opcode_mnemonic hi.assigned, hi.build?_eq⟩

/-! ## 3. The loop over a stream -/

/-- **The loop over a stream**, from an offset on, with what it comes to. -/
inductive Scan (units : List UInt16) : Nat → Except Error (List Instruction) → Prop
  /-- The loop is past the last unit. -/
  | done {offset : Nat} (h : units.length ≤ offset) : Scan units offset (.ok [])
  /-- An instruction cannot be decoded. -/
  | failed {offset : Nat} {e : Error} (h : offset < units.length)
      (hd : decodeAt units offset = .error e) : Scan units offset (.error e)
  /-- An instruction is decoded, and the loop goes on behind it. -/
  | step {offset w : Nat} {i : Instruction} {r : Except Error (List Instruction)}
      (h : offset < units.length) (hd : decodeAt units offset = .ok (i, w))
      (hr : Scan units (offset + w) r) : Scan units offset (r.map (i :: ·))

/-- The loop has one outcome. -/
theorem Scan.unique {units : List UInt16} {offset : Nat} {r r' : Except Error (List Instruction)}
    (h : Scan units offset r) (h' : Scan units offset r') : r = r' := by
  induction h generalizing r' with
  | done hl =>
    cases h' with
    | done => rfl
    | failed hl' => omega
    | step hl' => omega
  | failed hl hd =>
    cases h' with
    | done hl' => omega
    | failed _ hd' =>
      rw [hd] at hd'
      cases hd'
      rfl
    | step _ hd' =>
      rw [hd] at hd'
      cases hd'
  | step hl hd _ ih =>
    cases h' with
    | done hl' => omega
    | failed _ hd' =>
      rw [hd] at hd'
      cases hd'
    | step _ hd' hr' =>
      rw [hd] at hd'
      cases hd'
      rw [ih hr']

/-- Every step moves on, so as many steps as there are units left are enough. -/
theorem scan_decodeUpTo {units : List UInt16} {limit offset : Nat}
    (h : units.length ≤ offset + limit) :
    Scan units offset (decodeUpTo limit offset (units.drop offset)) := by
  induction limit generalizing offset with
  | zero =>
    rw [List.drop_of_length_le (by omega)]
    exact .done (by omega)
  | succ limit ih =>
    cases hu : units.drop offset with
    | nil => exact .done (List.drop_eq_nil_iff.mp hu)
    | cons first rest =>
      have hl : offset < units.length := by
        by_contra hl
        rw [List.drop_of_length_le (by omega)] at hu
        cases hu
      rw [decodeUpTo, ← hu]
      cases hd : decode offset (units.drop offset) with
      | error e => exact .failed hl hd
      | ok p =>
        obtain ⟨i, w⟩ := p
        obtain ⟨-, -, -, hpos, -⟩ := encode_of_decode hd
        have hr := Scan.step hl hd (@ih (offset + w) (by omega))
        rw [← List.drop_drop, map_eq_bind] at hr
        exact hr
      · simp

/-- **The loop ends**, with what decoding the stream gives. -/
theorem scan_iff {units : List UInt16} {r : Except Error (List Instruction)} :
    Scan units 0 r ↔ decodeStream units = r := by
  have hscan : Scan units 0 (decodeStream units) := scan_decodeUpTo (by omega)
  constructor
  · exact fun h => hscan.unique h
  · rintro rfl
    exact hscan

/-- What the loop has read and what it goes on to read is the stream. -/
theorem Scan.sum_widths {units : List UInt16} {offset : Nat}
    {r : Except Error (List Instruction)} (h : Scan units offset r) (hl : offset ≤ units.length)
    {code : List Instruction} (hr : r = .ok code) :
    offset + (code.map width).sum = units.length := by
  induction h generalizing code with
  | done hle =>
    cases hr
    simp only [List.map_nil, List.sum_nil]
    omega
  | failed => cases hr
  | step hlt hd _ ih =>
    obtain ⟨rest, hrest, rfl⟩ := map_eq_ok.mp hr
    obtain ⟨-, -, rfl, -, hlen⟩ := encode_of_decode hd
    rw [List.length_drop] at hlen
    have hsum := ih (by omega) hrest
    rw [List.map_cons, List.sum_cons]
    omega

/-- **Decoded instructions are valid and tile the stream.** -/
theorem decoded_valid_and_tiling (units : List UInt16) :
    (∀ index i w, decodeAt units index = .ok (i, w) →
      w = i.width ∧ 1 ≤ w ∧ i.checkOperand i.operand = .ok () ∧
        (i.isPayload = false →
          build? i.opcode i.registers i.operand = .ok i ∧
            ofMnemonic i.mnemonic i.registers i.operand = .ok i)) ∧
      (∀ r, Scan units 0 r ↔ decodeStream units = r) ∧
        ∀ code, decodeStream units = .ok code → (code.map width).sum = units.length := by
  refine ⟨fun index i w h => ?_, fun r => scan_iff, fun code h => ?_⟩
  · obtain ⟨hi, he, hw, hpos, -⟩ := encode_of_decode h
    rcases hi with hi | hi
    · exact ⟨hw, hpos, hi.checkOperand_eq, fun _ => ⟨hi.build?_eq, hi.ofMnemonic_eq⟩⟩
    · refine ⟨hw, hpos, hi.checkOperand_eq he, fun hp => ?_⟩
      rw [hi.isPayload_eq_true] at hp
      cases hp
  · rw [← (scan_iff.mpr h).sum_widths (Nat.zero_le _) rfl, Nat.zero_add]

set_option maxRecDepth 4000 in
/-- A constant, a switch table without entries and a return. -/
theorem decoded_valid_and_tiling_tableInside :
    let units : List UInt16 := [0x1012, 0x0100, 0x0000, 0x000A, 0x0000, 0x000F]
    let constant : Instruction :=
      { opcode := 0x12, format := .f11n, registers := [0], operand := .literal 1 }
    let exit : Instruction := { opcode := 0x0F, format := .f11x, registers := [0] }
    decodeAt units 0 = .ok (constant, 1) ∧
      ofMnemonic constant.mnemonic constant.registers constant.operand = .ok constant ∧
      decodeStream units = .ok [constant, packedSwitchPayload 10 [], exit] ∧
      ([constant, packedSwitchPayload 10 [], exit].map width).sum = 6 := by
  intro units constant exit
  have hfirst : decodeAt units 0 = .ok (constant, 1) := by decide +kernel
  have hstream : decodeStream units = .ok [constant, packedSwitchPayload 10 [], exit] := by
    decide +kernel
  obtain ⟨hvalid, -, htile⟩ := decoded_valid_and_tiling units
  obtain ⟨-, -, -, hbuilt⟩ := hvalid 0 constant 1 hfirst
  exact ⟨hfirst, (hbuilt rfl).2, hstream, htile _ hstream⟩

end Instruction

end Dalvik
