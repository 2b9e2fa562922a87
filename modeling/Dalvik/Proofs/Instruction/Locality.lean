/-
# Decoding looks at one instruction

What is decoded at an offset depends on the code units of that instruction alone: neither what
stands around them nor where they stand matters, save in messages.  Where some of these units are
missing, decoding ends out of bounds; the checks that a whole instruction passes never get in the
way of that.

* `decode_of_take_eq`: units that begin alike are decoded alike;
* `decode_take`: units that end early are out of bounds;
* `decodeAt_depends_on_window`: the main statement, for instructions anywhere in a stream.
-/
import Dalvik.Proofs.Instruction.Roundtrip

namespace Dalvik

/-- A list that begins like another has the same front, and begins alike behind it; it is as long as
that asks for. -/
theorem exists_append_of_take_eq {α : Type} {l rest : List α} (front : List α) {n : Nat}
    (h : l.take (front.length + n) = (front ++ rest).take (front.length + n)) :
    ∃ l', l = front ++ l' ∧ l'.take n = rest.take n ∧ (n ≤ rest.length → n ≤ l'.length) := by
  have hfront := congrArg (List.take front.length) h
  have hrest := congrArg (List.drop front.length) h
  rw [List.take_take, List.take_take, Nat.min_eq_left (Nat.le_add_right ..), List.take_left]
    at hfront
  rw [List.drop_take, List.drop_take, Nat.add_sub_cancel_left, List.drop_left] at hrest
  refine ⟨l.drop front.length, ?_, hrest, ?_⟩
  · conv_lhs => rw [← List.take_append_drop front.length l, hfront]
  · have hlength := congrArg List.length hrest
    rw [List.length_take, List.length_take] at hlength
    omega

namespace Instruction

/-! ## 1. Registers and operands -/

/-- The offset is only named where unpacking fails. -/
theorem unpack_at {opcode : UInt8} {operation : Operation} {offset high : Nat}
    {tail : List UInt16} {r : List UInt16 × Operand} (hh : high < 256)
    (h : unpack opcode operation offset high tail = .ok r) (offset' : Nat) :
    unpack opcode operation offset' high tail = .ok r := by
  unfold unpack at h ⊢
  split at h <;>
    simp only [*, bind_eq_ok, checkUnused_eq_ok, pure_eq_ok, unpackRegisters_eq_ok,
      unpackRange_eq_ok hh, throw_ne_ok] at h ⊢
  all_goals exact h

/-- No check of a format comes before the units that it asks for. -/
theorem unpack_of_short {opcode : UInt8} {operation : Operation} {offset high : Nat}
    {tail : List UInt16} (h : tail.length + 1 < operation.format.width) :
    unpack opcode operation offset high tail = .error .outOfBounds := by
  unfold unpack
  split
  case h_27 => rfl
  all_goals
    rename_i hf
    simp [hf, Format.width] at h

/-- The first unit tells payloads from other instructions. -/
def isMark (first : UInt16) : Bool :=
  (lowByte first).toUInt8 == 0 && first != 0

theorem decode_of_isMark {offset : Nat} {first : UInt16} {rest : List UInt16}
    (hm : isMark first = true) :
    decode offset (first :: rest) = decodePayload offset (first :: rest) := by
  simp only [isMark, Bool.and_eq_true, beq_iff_eq, bne_iff_ne] at hm
  exact decode_mark hm.1 hm.2

theorem decode_of_not_isMark {offset : Nat} {first : UInt16} {rest : List UInt16}
    {opcode : UInt8} {operation : Operation} (hm : isMark first = false)
    (hc : (lowByte first).toUInt8 = opcode) (ho : Operation.ofOpcode opcode = operation) :
    decode offset (first :: rest) =
      if !operation.isAssigned then .error (.unknownOpcode opcode offset)
      else (unpack opcode operation offset (highByte first)
        (rest.take (operation.format.width - 1))).map fun r =>
          (⟨opcode, operation.format, r.1, r.2⟩, operation.format.width) := by
  subst hc ho
  unfold isMark at hm
  simp only [decode, hm, Bool.false_eq_true, if_false]
  split
  case isTrue => rfl
  case isFalse =>
    generalize unpack _ _ _ _ _ = x
    cases x <;> rfl

/-! ## 2. Payloads -/

/-- A payload is read from its own units. -/
theorem decodePayload_of_take_eq {offset : Nat} {units other : List UInt16} {i : Instruction}
    {w : Nat} (h : decodePayload offset units = .ok (i, w)) (he : other.take w = units.take w)
    (offset' : Nat) : decodePayload offset' other = .ok (i, w) := by
  obtain ⟨size, low, high, table, rfl⟩ | ⟨size, table, rfl⟩ |
    ⟨elementWidth, low, high, table, rfl⟩ := decodePayload_cases h
  · rw [decodePayload_packedSwitch] at h
    split at h
    · cases h
    obtain ⟨rfl, rfl⟩ := Prod.mk.inj (Except.ok.inj h)
    obtain ⟨table', rfl, ht, hl⟩ := exists_append_of_take_eq [packedSwitchMark, size, low, high] he
    simp only [List.cons_append, List.nil_append]
    rw [decodePayload_packedSwitch, if_neg (by omega), ht]
  · rw [decodePayload_sparseSwitch] at h
    split at h
    · cases h
    obtain ⟨rfl, rfl⟩ := Prod.mk.inj (Except.ok.inj h)
    obtain ⟨table', rfl, ht, hl⟩ := exists_append_of_take_eq [sparseSwitchMark, size] he
    have hkeys := congrArg (List.take (2 * size.toNat)) ht
    have htargets := congrArg (List.drop (2 * size.toNat)) ht
    rw [List.take_take, List.take_take, Nat.min_eq_left (by omega)] at hkeys
    rw [List.drop_take, List.drop_take,
      show 2 * (2 * size.toNat) - 2 * size.toNat = 2 * size.toNat by omega] at htargets
    simp only [List.cons_append, List.nil_append]
    rw [decodePayload_sparseSwitch, if_neg (by omega), hkeys, htargets]
  · obtain ⟨hw, hl, hz, rfl, rfl⟩ := (decodePayload_arrayData rfl).mp h
    obtain ⟨table', rfl, ht, hl'⟩ :=
      exists_append_of_take_eq [arrayDataMark, elementWidth, low, high] he
    simp only [List.cons_append, List.nil_append]
    refine (decodePayload_arrayData rfl).mpr ⟨hw, by omega, ?_, ?_, rfl⟩
    · rw [ht]
      exact hz
    · rw [ht]

/-- The front of a payload is out of bounds: what is checked of the whole has been checked, or
comes after its length. -/
theorem decodePayload_take {offset : Nat} {units : List UInt16} {i : Instruction} {w : Nat}
    (h : decodePayload offset units = .ok (i, w)) {n : Nat} (hn : n < w) (offset' : Nat) :
    decodePayload offset' (units.take n) = .error .outOfBounds := by
  obtain ⟨size, low, high, table, rfl⟩ | ⟨size, table, rfl⟩ |
    ⟨elementWidth, low, high, table, rfl⟩ := decodePayload_cases h
  · rw [decodePayload_packedSwitch] at h
    split at h
    · cases h
    obtain ⟨rfl, rfl⟩ := Prod.mk.inj (Except.ok.inj h)
    rcases n with _ | _ | _ | _ | n
    case succ.succ.succ.succ =>
      simp only [List.take_succ_cons]
      rw [decodePayload_packedSwitch, if_pos (by rw [List.length_take]; omega)]
    all_goals rfl
  · rw [decodePayload_sparseSwitch] at h
    split at h
    · cases h
    obtain ⟨rfl, rfl⟩ := Prod.mk.inj (Except.ok.inj h)
    rcases n with _ | _ | n
    case succ.succ =>
      simp only [List.take_succ_cons]
      rw [decodePayload_sparseSwitch, if_pos (by rw [List.length_take]; omega)]
    all_goals rfl
  · obtain ⟨hw, hl, hz, rfl, rfl⟩ := (decodePayload_arrayData rfl).mp h
    rcases n with _ | _ | _ | _ | n
    case succ.succ.succ.succ =>
      simp only [List.take_succ_cons]
      rw [decodePayload_arrayData_eq rfl rfl rfl, if_neg (by simp [hw]),
        if_pos (by rw [List.length_take]; omega)]
    all_goals rfl

/-! ## 3. Instructions in a stream -/

/-- **Units that begin alike are decoded alike**, wherever they stand. -/
theorem decode_of_take_eq {offset : Nat} {units other : List UInt16} {i : Instruction} {w : Nat}
    (h : decode offset units = .ok (i, w)) (he : other.take w = units.take w) (offset' : Nat) :
    decode offset' other = .ok (i, w) := by
  obtain ⟨-, -, -, hpos, hlen⟩ := encode_of_decode h
  obtain ⟨first, rest, rfl⟩ := List.exists_cons_of_length_pos (Nat.lt_of_lt_of_le hpos hlen)
  obtain ⟨k, rfl⟩ : ∃ k, w = 1 + k := ⟨w - 1, by omega⟩
  obtain ⟨rest', rfl, hrest, -⟩ := exists_append_of_take_eq [first] he
  rw [List.singleton_append]
  by_cases hm : isMark first = true
  · rw [decode_of_isMark hm] at h ⊢
    exact decodePayload_of_take_eq h he offset'
  · rw [Bool.not_eq_true] at hm
    rw [decode_of_not_isMark hm rfl rfl] at h ⊢
    split at h
    · cases h
    rename_i ha
    obtain ⟨r, hr, hi⟩ := map_eq_ok.mp h
    obtain ⟨rfl, hw⟩ := Prod.mk.inj hi
    rw [hw, Nat.add_sub_cancel_left] at hr
    rw [if_neg ha, map_eq_ok, hw, Nat.add_sub_cancel_left, hrest]
    exact ⟨r, unpack_at (highByte_lt first) hr offset', rfl⟩

/-- **Units that end early are out of bounds.** -/
theorem decode_take {offset : Nat} {units : List UInt16} {i : Instruction} {w : Nat}
    (h : decode offset units = .ok (i, w)) {n : Nat} (hn : n < w) (offset' : Nat) :
    decode offset' (units.take n) = .error .outOfBounds := by
  obtain ⟨-, -, -, hpos, hlen⟩ := encode_of_decode h
  obtain ⟨first, rest, rfl⟩ := List.exists_cons_of_length_pos (Nat.lt_of_lt_of_le hpos hlen)
  cases n with
  | zero => rfl
  | succ n =>
    by_cases hm : isMark first = true
    · rw [decode_of_isMark hm] at h
      rw [List.take_succ_cons, decode_of_isMark hm, ← List.take_succ_cons]
      exact decodePayload_take h hn offset'
    · rw [Bool.not_eq_true] at hm
      rw [decode_of_not_isMark hm rfl rfl] at h
      split at h
      · cases h
      rename_i ha
      obtain ⟨r, -, hi⟩ := map_eq_ok.mp h
      obtain ⟨-, hw⟩ := Prod.mk.inj hi
      rw [List.take_succ_cons, decode_of_not_isMark hm rfl rfl, if_neg ha, map_eq_error]
      refine unpack_of_short ?_
      rw [hw, List.length_take, List.length_take]
      omega

/-- **Decoding looks at one instruction and needs all of it.**  An instruction is read alike from
every stream that has its units, wherever it has them, and from no stream that ends before them. -/
theorem decodeAt_depends_on_window {units : List UInt16} {index w : Nat} {i : Instruction}
    (h : decodeAt units index = .ok (i, w)) :
    (∀ (other : List UInt16) (index' : Nat),
      (∀ k < w, other[index' + k]? = units[index + k]?) → decodeAt other index' = .ok (i, w)) ∧
      ∀ n < index + w, decodeAt (units.take n) index = .error .outOfBounds := by
  constructor
  · intro other index' hsame
    refine decode_of_take_eq h (List.ext_getElem? fun k => ?_) index'
    rcases Nat.lt_or_ge k w with hk | hk
    · rw [List.getElem?_take_of_lt hk, List.getElem?_take_of_lt hk, List.getElem?_drop,
        List.getElem?_drop]
      exact hsame k hk
    · rw [List.getElem?_take_eq_none hk, List.getElem?_take_eq_none hk]
  · intro n hn
    unfold decodeAt
    rw [List.drop_take]
    rcases Nat.lt_or_ge n index with hi | hi
    · rw [Nat.sub_eq_zero_of_le (Nat.le_of_lt hi)]
      rfl
    · exact decode_take h (by omega) index

/-- Array data amid other code is read alike where it stands alone, and not without its end. -/
theorem decodeAt_depends_on_window_arrayData :
    let units : List UInt16 := [0x0000, 0x0300, 0x0001, 0x0003, 0x0000, 0x0201, 0x0003, 0x000E]
    let alone : List UInt16 := [0x0300, 0x0001, 0x0003, 0x0000, 0x0201, 0x0003]
    decodeAt units 1 = .ok (arrayDataPayload 1 [1, 2, 3], 6) ∧
      decodeAt alone 0 = .ok (arrayDataPayload 1 [1, 2, 3], 6) ∧
      decodeAt (units.take 6) 1 = .error .outOfBounds := by
  intro units alone
  have h : decodeAt units 1 = .ok (arrayDataPayload 1 [1, 2, 3], 6) := by decide +kernel
  obtain ⟨hsame, hshort⟩ := decodeAt_depends_on_window h
  exact ⟨h, hsame alone 0 (by decide), hshort 6 (by decide)⟩

end Instruction

end Dalvik
