/-
# Variable-length integers as numbers

A number is written as a group of bytes of which exactly the last does not say that another follows.
The group stands for the sum of its bytes' low seven bits with the weights `128 ^ i`; a signed one
for the same sum taken as a two's complement of seven bits for each byte.

* `number_encodeUnsigned` and `signedNumber_encodeSigned`: what is written stands for the number;
* `length_encodeUnsigned_le_iff` and `length_encodeSigned_le_iff`: it has as many bytes as the
  number needs, so at most five;
* `number_lt` and `signedNumber_range`: fewer bytes stand for other numbers only.
-/
import Mathlib.Algebra.Group.Int.Defs
import Mathlib.Tactic.SplitIfs
import Dalvik.Bytes.Leb128
import Dalvik.Proofs.Bytes.Bits

namespace Dalvik.Leb128

/-! ## 1. Groups -/

/-- Bytes of which exactly the last ends a number. -/
inductive IsGroup : List UInt8 → Prop
  | last {b : UInt8} (h : continues b = false) : IsGroup [b]
  | more {b : UInt8} {bytes : List UInt8} (h : continues b = true) (hs : IsGroup bytes) :
    IsGroup (b :: bytes)

theorem IsGroup.length_pos {bytes : List UInt8} (h : IsGroup bytes) : 0 < bytes.length := by
  cases h <;> simp

/-- The number that bytes stand for, by the low seven bits of each, lowest first. -/
def number : List UInt8 → Nat
  | [] => 0
  | b :: rest => b.toNat % 128 + 128 * number rest

/-- The number that bytes stand for if the highest of these bits is a sign. -/
def signedNumber (bytes : List UInt8) : Int :=
  (number bytes : Int).bmod (128 ^ bytes.length)

theorem number_lt (bytes : List UInt8) : number bytes < 128 ^ bytes.length := by
  induction bytes with
  | nil => exact Nat.one_pos
  | cons b rest ih =>
    rw [number, List.length_cons, Nat.pow_succ]
    omega

theorem number_append (front : List UInt8) (b : UInt8) :
    number (front ++ [b]) = number front + 128 ^ front.length * (b.toNat % 128) := by
  induction front with
  | nil => simp [number]
  | cons a rest ih =>
    rw [List.cons_append, number, number, ih, List.length_cons, Nat.pow_succ, Nat.mul_add,
      Nat.mul_comm (128 ^ rest.length) 128, Nat.mul_assoc, Nat.add_assoc]

/-- The sign of several bytes is that of all but the first. -/
theorem signedNumber_cons (b : UInt8) {bytes : List UInt8} (h : 0 < bytes.length) :
    signedNumber (b :: bytes) = b.toNat % 128 + 128 * signedNumber bytes := by
  obtain ⟨half, hhalf⟩ : ∃ half, 128 ^ bytes.length = 2 * half := by
    obtain ⟨n, hn⟩ := Nat.exists_eq_succ_of_ne_zero (Nat.ne_of_gt h)
    exact ⟨64 * 128 ^ n, by rw [hn, Nat.pow_succ]; omega⟩
  have hlt := number_lt bytes
  rw [signedNumber, signedNumber, number, List.length_cons, Nat.pow_succ, hhalf, Int.bmod,
    Int.bmod]
  rw [hhalf] at hlt
  have hsmall : ((number bytes : Nat) : Int) % ((2 * half : Nat) : Int) = number bytes :=
    Int.emod_eq_of_lt (by omega) (by omega)
  have hwhole : ((b.toNat % 128 + 128 * number bytes : Nat) : Int) %
      ((2 * half * 128 : Nat) : Int) = (b.toNat % 128 + 128 * number bytes : Nat) :=
    Int.emod_eq_of_lt (by omega) (by omega)
  rw [hsmall, hwhole]
  split <;> split <;> omega

/-- The numbers that some bytes can stand for are those of the bits that they have. -/
theorem signedNumber_range {bytes : List UInt8} {k : Nat} (h : bytes.length = k + 1) :
    -(64 * 128 ^ k) ≤ signedNumber bytes ∧ signedNumber bytes < 64 * 128 ^ k := by
  have hpos : 0 < 128 ^ (k + 1) := Nat.pow_pos (by decide)
  have hhalf : 128 ^ (k + 1) = 2 * (64 * 128 ^ k) := by
    rw [Nat.pow_succ]
    omega
  have hlow := Int.le_bmod (x := number bytes) hpos
  have hhigh := Int.bmod_lt (x := number bytes) hpos
  have hcast : ((64 * 128 ^ k : Nat) : Int) = 64 * 128 ^ k := by
    rw [Int.natCast_mul, Int.natCast_pow]
    rfl
  rw [signedNumber, h, ← hcast]
  generalize 64 * 128 ^ k = bound at hhalf ⊢
  rw [hhalf] at hlow hhigh ⊢
  omega

/-! ## 2. Bytes as numbers -/

theorem continues_iff {b : UInt8} : continues b = true ↔ 128 ≤ b.toNat := by
  have hbit : ∀ n < 256, n &&& 128 = 0 ↔ n < 128 := by decide +kernel
  have hmask : (0x80 : UInt8).toNat = 128 := rfl
  rw [continues, bne_iff_ne, ne_eq, ← UInt8.toNat_inj, UInt8.toNat_and, hmask, UInt8.toNat_zero,
    hbit _ b.toNat_lt, Nat.not_lt]

theorem toNat_low (b : UInt8) : (b &&& 0x7F).toUInt32.toNat = b.toNat % 128 := by
  have h : b.toNat &&& 127 = b.toNat % 128 := Nat.and_two_pow_sub_one_eq_mod _ 7
  have hmask : (0x7F : UInt8).toNat = 127 := rfl
  rw [UInt8.toNat_toUInt32, UInt8.toNat_and, hmask, h]

theorem toNat_group (v : UInt32) : (v &&& 0x7F).toUInt8.toNat = v.toNat % 128 := by
  have h : v.toNat &&& 127 = v.toNat % 128 := Nat.and_two_pow_sub_one_eq_mod _ 7
  have hmask : (0x7F : UInt32).toNat = 127 := rfl
  rw [UInt32.toNat_toUInt8, UInt32.toNat_and, hmask, h]
  omega

theorem toNat_group_or (v : UInt32) :
    ((v &&& 0x7F).toUInt8 ||| 0x80).toNat = 128 + v.toNat % 128 := by
  have hmark : (0x80 : UInt8).toNat = 128 := rfl
  rw [UInt8.toNat_or, toNat_group, hmark, Nat.or_comm]
  exact or_eq_add (n := 7) (by omega) (by omega)

theorem continues_group (v : UInt32) : continues (v &&& 0x7F).toUInt8 = false := by
  rw [Bool.eq_false_iff, ne_eq, continues_iff, toNat_group]
  omega

theorem continues_group_or (v : UInt32) : continues ((v &&& 0x7F).toUInt8 ||| 0x80) = true := by
  rw [continues_iff, toNat_group_or]
  omega

/-- The second highest bit of a byte. -/
theorem signBit_iff {b : UInt8} : (b &&& 0x40 != 0) = true ↔ 64 ≤ b.toNat % 128 := by
  have hbit : ∀ n < 256, n &&& 64 = 0 ↔ n % 128 < 64 := by decide +kernel
  have hmask : (0x40 : UInt8).toNat = 64 := rfl
  rw [bne_iff_ne, ne_eq, ← UInt8.toNat_inj, UInt8.toNat_and, hmask, UInt8.toNat_zero,
    hbit _ b.toNat_lt, Nat.not_lt]

/-! ## 3. Unsigned numbers -/

/-- The test with which writing ends. -/
theorem shift7_eq_zero_iff {v : UInt32} : (v >>> 7 == 0) = true ↔ v.toNat < 128 := by
  rw [beq_iff_eq, ← UInt32.toNat_inj, toNat_shift7, UInt32.toNat_zero]
  omega

theorem encodeUnsigned_of_lt {v : UInt32} (h : v.toNat < 128) :
    encodeUnsigned v = [(v &&& 0x7F).toUInt8] := by
  rw [encodeUnsigned]
  exact if_pos (shift7_eq_zero_iff.mpr h)

theorem encodeUnsigned_of_le {v : UInt32} (h : 128 ≤ v.toNat) :
    encodeUnsigned v = ((v &&& 0x7F).toUInt8 ||| 0x80) :: encodeUnsigned (v >>> 7) := by
  rw [encodeUnsigned]
  exact if_neg fun hlast => Nat.not_lt.mpr h (shift7_eq_zero_iff.mp hlast)

/-- What holds of a number if it does of what is left after a group, as writing goes on. -/
theorem unsigned_induction {P : UInt32 → Prop} (last : ∀ v : UInt32, v.toNat < 128 → P v)
    (more : ∀ v : UInt32, 128 ≤ v.toNat → P (v >>> 7) → P v) (v : UInt32) : P v := by
  induction v using encodeUnsigned.induct with
  | case1 v _ hlast => exact last v (shift7_eq_zero_iff.mp hlast)
  | case2 v _ hmore ih =>
    exact more v (Nat.not_lt.mp fun hlt => hmore (shift7_eq_zero_iff.mpr hlt)) ih

theorem isGroup_encodeUnsigned (v : UInt32) : IsGroup (encodeUnsigned v) := by
  induction v using unsigned_induction with
  | last v h =>
    rw [encodeUnsigned_of_lt h]
    exact .last (continues_group v)
  | more v h ih =>
    rw [encodeUnsigned_of_le h]
    exact .more (continues_group_or v) ih

/-- **An unsigned number** is what its bytes stand for. -/
theorem number_encodeUnsigned (v : UInt32) : number (encodeUnsigned v) = v.toNat := by
  induction v using unsigned_induction with
  | last v h =>
    rw [encodeUnsigned_of_lt h, number, number, toNat_group]
    omega
  | more v h ih =>
    rw [encodeUnsigned_of_le h, number, toNat_group_or, ih, toNat_shift7]
    omega

/-- **An unsigned number takes as many bytes** as it needs. -/
theorem length_encodeUnsigned_le_iff (v : UInt32) (k : Nat) :
    (encodeUnsigned v).length ≤ k + 1 ↔ v.toNat < 128 ^ (k + 1) := by
  induction v using unsigned_induction generalizing k with
  | last v h =>
    have hpow : 1 ≤ 128 ^ k := Nat.pow_pos (by decide)
    rw [encodeUnsigned_of_lt h, List.length_singleton, Nat.pow_succ]
    omega
  | more v h ih =>
    rw [encodeUnsigned_of_le h, List.length_cons, Nat.add_le_add_iff_right]
    cases k with
    | zero =>
      have hpos := (isGroup_encodeUnsigned (v >>> 7)).length_pos
      omega
    | succ k =>
      rw [ih k, toNat_shift7, Nat.pow_succ 128 (k + 1)]
      omega

theorem length_encodeUnsigned_le (v : UInt32) : (encodeUnsigned v).length ≤ 5 :=
  (length_encodeUnsigned_le_iff v 4).mpr (Nat.lt_of_lt_of_le v.toNat_lt (by decide))

/-- **The size** of an unsigned number is the number of its bytes. -/
theorem length_encodeUnsigned (v : UInt32) : (encodeUnsigned v).length = unsignedSize v := by
  have hpos := (isGroup_encodeUnsigned v).length_pos
  have h₁ : (encodeUnsigned v).length ≤ 1 ↔ v < 0x80 := length_encodeUnsigned_le_iff v 0
  have h₂ : (encodeUnsigned v).length ≤ 2 ↔ v < 0x4000 := length_encodeUnsigned_le_iff v 1
  have h₃ : (encodeUnsigned v).length ≤ 3 ↔ v < 0x200000 := length_encodeUnsigned_le_iff v 2
  have h₄ : (encodeUnsigned v).length ≤ 4 ↔ v < 0x10000000 := length_encodeUnsigned_le_iff v 3
  have h₅ := length_encodeUnsigned_le v
  simp only [unsignedSize, ← h₁, ← h₂, ← h₃, ← h₄]
  split_ifs <;> omega

/-! ## 4. Signed numbers -/

theorem toNat_toUInt32 (v : Int32) : (v.toUInt32.toNat : Int) = v.toInt % 4294967296 := by
  have hcond := BitVec.toInt_eq_toNat_cond v.toUInt32.toBitVec
  have hlt := v.toUInt32.toNat_lt
  rw [Int32.toBitVec_toUInt32, Int32.toInt_toBitVec, ← Int32.toBitVec_toUInt32,
    UInt32.toNat_toBitVec] at hcond
  split at hcond <;> omega

/-- What is left of a number is all sign: nothing of a positive one, all ones of a negative one. -/
theorem isLast_iff (v : Int32) : isLast v = true ↔ -64 ≤ v.toInt ∧ v.toInt < 64 := by
  have hv := toNat_toUInt32 v
  have hzero : (0 : Int32).toInt = 0 := rfl
  have hone : (-1 : Int32).toInt = -1 := rfl
  unfold isLast
  dsimp only
  rw [Bool.or_eq_true, Bool.and_eq_true, Bool.and_eq_true, Bool.not_eq_true', Bool.eq_false_iff,
    ne_eq, signBit_iff, beq_iff_eq, beq_iff_eq, ← Int32.toInt_inj, ← Int32.toInt_inj,
    toInt_shift7, hzero, hone, toNat_group]
  omega

theorem encodeSigned_of_small {v : Int32} (h : -64 ≤ v.toInt ∧ v.toInt < 64) :
    encodeSigned v = [(v.toUInt32 &&& 0x7F).toUInt8] := by
  rw [encodeSigned]
  exact if_pos ((isLast_iff v).mpr h)

theorem encodeSigned_of_large {v : Int32} (h : ¬ (-64 ≤ v.toInt ∧ v.toInt < 64)) :
    encodeSigned v = ((v.toUInt32 &&& 0x7F).toUInt8 ||| 0x80) :: encodeSigned (v >>> 7) := by
  rw [encodeSigned]
  exact if_neg fun hlast => h ((isLast_iff v).mp hlast)

/-- What holds of a number if it does of what is left after a group, as writing goes on. -/
theorem signed_induction {P : Int32 → Prop}
    (last : ∀ v : Int32, -64 ≤ v.toInt ∧ v.toInt < 64 → P v)
    (more : ∀ v : Int32, ¬ (-64 ≤ v.toInt ∧ v.toInt < 64) → P (v >>> 7) → P v) (v : Int32) :
    P v := by
  induction v using encodeSigned.induct with
  | case1 v hlast => exact last v ((isLast_iff v).mp hlast)
  | case2 v hmore ih => exact more v (fun h => hmore ((isLast_iff v).mpr h)) ih

theorem isGroup_encodeSigned (v : Int32) : IsGroup (encodeSigned v) := by
  induction v using signed_induction with
  | last v h =>
    rw [encodeSigned_of_small h]
    exact .last (continues_group _)
  | more v h ih =>
    rw [encodeSigned_of_large h]
    exact .more (continues_group_or _) ih

/-- **A signed number** is what its bytes stand for. -/
theorem signedNumber_encodeSigned (v : Int32) : signedNumber (encodeSigned v) = v.toInt := by
  induction v using signed_induction with
  | last v h =>
    have hv := toNat_toUInt32 v
    rw [encodeSigned_of_small h, signedNumber, number, number, toNat_group, List.length_singleton,
      Int.bmod]
    split <;> omega
  | more v h ih =>
    have hv := toNat_toUInt32 v
    rw [encodeSigned_of_large h, signedNumber_cons _ (isGroup_encodeSigned _).length_pos, ih,
      toNat_group_or, toInt_shift7]
    omega

/-- **A signed number takes as many bytes** as it needs. -/
theorem length_encodeSigned_le_iff (v : Int32) (k : Nat) : (encodeSigned v).length ≤ k + 1 ↔
    -(64 * 128 ^ k) ≤ v.toInt ∧ v.toInt < 64 * 128 ^ k := by
  induction v using signed_induction generalizing k with
  | last v h =>
    have hpow : (0 : Int) < 128 ^ k := Int.pow_pos (by decide)
    rw [encodeSigned_of_small h, List.length_singleton]
    generalize (128 : Int) ^ k = weight at hpow ⊢
    omega
  | more v h ih =>
    rw [encodeSigned_of_large h, List.length_cons, Nat.add_le_add_iff_right]
    cases k with
    | zero =>
      have hpos := (isGroup_encodeSigned (v >>> 7)).length_pos
      omega
    | succ k =>
      rw [ih k, toInt_shift7, Int.pow_succ]
      generalize (128 : Int) ^ k = weight
      omega

theorem length_encodeSigned_le (v : Int32) : (encodeSigned v).length ≤ 5 := by
  have hlow := v.le_toInt
  have hhigh := v.toInt_lt
  exact (length_encodeSigned_le_iff v 4).mpr (by omega)

/-! ## 5. Joining the groups -/

theorem pow_groups (k : Nat) : 2 ^ (7 * k) = 128 ^ k :=
  Nat.pow_mul 2 7 k

/-- **One more group** goes above the bits of those before it, as far as there is room. -/
theorem join_group {front : List UInt8} (h : front.length < 5) (b : UInt8) :
    UInt32.ofNat (number front) ||| (b &&& 0x7F).toUInt32 <<< UInt32.ofNat (7 * front.length) =
      UInt32.ofNat (number (front ++ [b])) := by
  have hlt := number_lt front
  have hplace : (UInt32.ofNat (7 * front.length)).toNat % 32 = 7 * front.length := by
    rw [UInt32.toNat_ofNat']
    omega
  have hshift : ((b &&& 0x7F).toUInt32 <<< UInt32.ofNat (7 * front.length)).toNat =
      b.toNat % 128 * 128 ^ front.length % 2 ^ 32 := by
    rw [UInt32.toNat_shiftLeft, toNat_low, hplace, Nat.shiftLeft_eq, pow_groups]
  have habove : 2 ^ (7 * front.length) ∣ b.toNat % 128 * 128 ^ front.length % 2 ^ 32 := by
    rw [Nat.dvd_mod_iff (Nat.pow_dvd_pow 2 (by omega)), pow_groups]
    exact Nat.dvd_mul_left ..
  have hbelow : number front % 2 ^ 32 < 2 ^ (7 * front.length) := by
    rw [pow_groups]
    exact Nat.lt_of_le_of_lt (Nat.mod_le ..) hlt
  rw [← UInt32.toNat_inj, UInt32.toNat_or, hshift, UInt32.toNat_ofNat', UInt32.toNat_ofNat',
    Nat.or_comm, or_eq_add hbelow habove, number_append]
  -- what is dropped of the group is a multiple of what all groups before it are below
  have hcases : front.length = 0 ∨ front.length = 1 ∨ front.length = 2 ∨ front.length = 3 ∨
      front.length = 4 := by omega
  rcases hcases with hk | hk | hk | hk | hk <;> rw [hk] at hlt ⊢ <;> omega

/-- The ones above a signed group. -/
theorem toNat_ones {k : Nat} (h : k < 5) :
    ((0xFFFFFFFF : UInt32) <<< UInt32.ofNat (7 * k)).toNat = 2 ^ 32 - 128 ^ k := by
  have hall : ∀ k < 5,
      ((0xFFFFFFFF : UInt32) <<< UInt32.ofNat (7 * k)).toNat = 2 ^ 32 - 128 ^ k := by decide
  exact hall k h

theorem signedNumber_of_lt {bytes : List UInt8} (h : 2 * number bytes < 128 ^ bytes.length) :
    signedNumber bytes = number bytes := by
  have hwhole : (number bytes : Int) % ((128 ^ bytes.length : Nat) : Int) = number bytes :=
    Int.emod_eq_of_lt (by omega) (by omega)
  rw [signedNumber, Int.bmod, hwhole, if_pos (by omega)]

theorem signedNumber_of_le {bytes : List UInt8} (h : 128 ^ bytes.length ≤ 2 * number bytes) :
    signedNumber bytes = number bytes - (128 ^ bytes.length : Nat) := by
  have hlt := number_lt bytes
  have hwhole : (number bytes : Int) % ((128 ^ bytes.length : Nat) : Int) = number bytes :=
    Int.emod_eq_of_lt (by omega) (by omega)
  rw [signedNumber, Int.bmod, hwhole, if_neg (by omega)]

/-- The sign of a group is the second highest bit of its last byte. -/
theorem sign_iff (front : List UInt8) (last : UInt8) :
    64 ≤ last.toNat % 128 ↔
      128 ^ (front ++ [last]).length ≤ 2 * number (front ++ [last]) := by
  have hlt := number_lt front
  have hbyte : last.toNat % 128 < 128 := Nat.mod_lt _ (by decide)
  rw [number_append, List.length_append, List.length_singleton, Nat.pow_succ]
  generalize last.toNat % 128 = group at hbyte ⊢
  generalize 128 ^ front.length = weight at hlt ⊢
  constructor
  · intro h
    have hmul := Nat.mul_le_mul_left weight h
    omega
  · intro h
    refine Nat.not_lt.mp fun hsmall => ?_
    have hmul := Nat.mul_le_mul_left weight (Nat.le_of_lt_succ hsmall)
    omega

/-- **The sign** goes above the bits of a signed number, as far as there is room. -/
theorem signExtended_eq {front : List UInt8} (h : front.length < 5) (last : UInt8) :
    signExtended last (UInt32.ofNat (7 * (front ++ [last]).length))
        (UInt32.ofNat (number (front ++ [last]))) =
      Int32.ofInt (signedNumber (front ++ [last])) := by
  have hlength : (front ++ [last]).length = front.length + 1 := List.length_append
  have hroom : UInt32.ofNat (7 * (front ++ [last]).length) < 32 ↔ (front ++ [last]).length < 5 := by
    have hsmall : 7 * (front ++ [last]).length < 2 ^ 32 := by omega
    rw [UInt32.lt_iff_toNat_lt, UInt32.toNat_ofNat_of_lt' hsmall,
      show (32 : UInt32).toNat = 32 from rfl]
    omega
  have hsign := sign_iff front last
  rw [← signBit_iff] at hsign
  have hlt := number_lt (front ++ [last])
  generalize front ++ [last] = bytes at *
  rw [← Int32.toInt_inj, Int32.toInt_ofInt]
  unfold signExtended
  split
  case isTrue hboth =>
    rw [Bool.and_eq_true, decide_eq_true_eq, hroom, hsign] at hboth
    obtain ⟨hfour, hneg⟩ := hboth
    have hpow : 128 ^ bytes.length ≤ 2 ^ 32 :=
      Nat.le_trans (Nat.pow_le_pow_right (by decide) (Nat.lt_succ_iff.mp hfour)) (by decide)
    have hones : 2 ^ (7 * bytes.length) ∣ 2 ^ 32 - 128 ^ bytes.length := by
      rw [← pow_groups]
      exact Nat.dvd_sub (Nat.pow_dvd_pow 2 (by omega)) (Nat.dvd_refl _)
    have hbits : UInt32.ofNat (number bytes) ||| 0xFFFFFFFF <<< UInt32.ofNat (7 * bytes.length) =
        UInt32.ofNat (2 ^ 32 - 128 ^ bytes.length + number bytes) := by
      rw [← UInt32.toNat_inj, UInt32.toNat_or, toNat_ones hfour, UInt32.toNat_ofNat',
        UInt32.toNat_ofNat', Nat.mod_eq_of_lt (Nat.lt_of_lt_of_le hlt hpow), Nat.or_comm,
        or_eq_add (n := 7 * bytes.length) (by rwa [pow_groups]) hones]
      omega
    have hint : ((2 ^ 32 - 128 ^ bytes.length + number bytes : Nat) : Int) =
        ((2 ^ 32 : Nat) : Int) + signedNumber bytes := by
      rw [signedNumber_of_le hneg]
      omega
    rw [hbits, UInt32.toInt32_ofNat', Int32.toInt_ofNat', hint]
    exact Int.add_bmod_left ..
  case isFalse hboth =>
    rw [Bool.and_eq_true, decide_eq_true_eq, hroom, hsign] at hboth
    rw [UInt32.toInt32_ofNat', Int32.toInt_ofNat']
    by_cases hfour : bytes.length < 5
    · rw [signedNumber_of_lt (Nat.not_le.mp fun hneg => hboth ⟨hfour, hneg⟩)]
    · -- five bytes have no room for a sign, and what they spell agrees in the bits that there are
      have hfive : bytes.length = 5 := by omega
      rw [signedNumber, hfive]
      exact (Int.bmod_bmod_of_dvd (by decide)).symm

end Dalvik.Leb128
