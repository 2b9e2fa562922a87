/-
# Strings read back from their bytes

Each code unit is written in one, two or three bytes, and the first of them tells how many there
are: below 0x80, from 0xC0 on, or from 0xE0 on.  The bytes after it hold six bits each.  So the
reader takes every unit back that the writer wrote, whatever comes after it.  No byte is zero, which
is why a zero can end a string.

* `decodeUnits_encodeUnit` is the statement for one unit;
* `decode_encode` and `ne_zero_of_mem_encode` are the two for strings;
* `utf8ByteSize_le` compares the length with that of the UTF-8 form.
-/
import Dalvik.Proofs.Bytes.Bits
import Dalvik.Proofs.Text.Utf16
import Dalvik.Text.Mutf8

namespace Dalvik.Mutf8

open Text (units chars?)

/-! ## 1. Bytes as numbers -/

theorem toNat_shift6 (u : UInt16) : (u >>> 6).toNat = u.toNat / 64 := by
  rw [UInt16.toNat_shiftRight, Nat.shiftRight_eq_div_pow]
  rfl

theorem toNat_shift12 (u : UInt16) : (u >>> 12).toNat = u.toNat / 4096 := by
  rw [UInt16.toNat_shiftRight, Nat.shiftRight_eq_div_pow]
  rfl

theorem toNat_low (u : UInt16) : (u &&& 0x3F).toNat = u.toNat % 64 := by
  rw [UInt16.toNat_and]
  exact Nat.and_two_pow_sub_one_eq_mod u.toNat 6

theorem toNat_continuation (u : UInt16) : (continuation u).toNat = 0x80 + u.toNat % 64 := by
  have hlow : (u &&& 0x3F).toUInt8.toNat = u.toNat % 64 := by
    rw [UInt16.toNat_toUInt8, toNat_low]
    omega
  have hmark : (0x80 : UInt8).toNat = 128 := rfl
  rw [continuation, UInt8.toNat_or, hlow, hmark, Nat.or_comm]
  exact or_eq_add (n := 6) (by omega) (by omega)

/-- The first of several bytes: the bits above a shift, and the mark of a length above those. -/
theorem toNat_lead (bits : UInt16) (mark : UInt8) (hb : bits.toNat < 32) (hm : 32 ∣ mark.toNat) :
    (bits.toUInt8 ||| mark).toNat = mark.toNat + bits.toNat := by
  have hlow : bits.toUInt8.toNat = bits.toNat := by
    rw [UInt16.toNat_toUInt8]
    omega
  rw [UInt8.toNat_or, hlow, Nat.or_comm]
  exact or_eq_add (n := 5) (by omega) (by omega)

theorem isContinuation_continuation (u : UInt16) : isContinuation (continuation u) = true := by
  have hsplit : ∀ n, n < 64 → (0x80 + n) &&& 0xC0 = 0x80 := by decide
  rw [isContinuation, beq_iff_eq, ← UInt8.toNat_inj, UInt8.toNat_and, toNat_continuation]
  exact hsplit _ (Nat.mod_lt _ (by decide))

theorem toNat_payload (b : UInt8) : (payload b).toNat = b.toNat % 64 := by
  have h : b.toNat &&& 63 = b.toNat % 64 := Nat.and_two_pow_sub_one_eq_mod _ 6
  have hmask : (0x3F : UInt8).toNat = 63 := rfl
  rw [payload, UInt8.toNat_toUInt16, UInt8.toNat_and, hmask, h]

theorem toNat_shiftLeft6 (v : UInt16) : (v <<< 6).toNat = v.toNat * 64 % 65536 := by
  rw [UInt16.toNat_shiftLeft, Nat.shiftLeft_eq]
  rfl

theorem toNat_shiftLeft12 (v : UInt16) : (v <<< 12).toNat = v.toNat * 4096 % 65536 := by
  rw [UInt16.toNat_shiftLeft, Nat.shiftLeft_eq]
  rfl

/-- The unit that two bytes carry, whatever marks them. -/
theorem toNat_two (a b : UInt8) : ((a &&& 0x1F).toUInt16 <<< 6 ||| payload b).toNat =
    a.toNat % 32 * 64 + b.toNat % 64 := by
  have hhigh : ((a &&& 0x1F).toUInt16 <<< 6).toNat = a.toNat % 32 * 64 := by
    have h : a.toNat &&& 31 = a.toNat % 32 := Nat.and_two_pow_sub_one_eq_mod _ 5
    have hmask : (0x1F : UInt8).toNat = 31 := rfl
    rw [toNat_shiftLeft6, UInt8.toNat_toUInt16, UInt8.toNat_and, hmask, h]
    omega
  rw [UInt16.toNat_or, hhigh, toNat_payload]
  exact or_eq_add (n := 6) (by omega) (by omega)

/-- The unit that three bytes carry, whatever marks them. -/
theorem toNat_three (a b c : UInt8) :
    ((a &&& 0x0F).toUInt16 <<< 12 ||| payload b <<< 6 ||| payload c).toNat =
      a.toNat % 16 * 4096 + b.toNat % 64 * 64 + c.toNat % 64 := by
  have hhigh : ((a &&& 0x0F).toUInt16 <<< 12).toNat = a.toNat % 16 * 4096 := by
    have h : a.toNat &&& 15 = a.toNat % 16 := Nat.and_two_pow_sub_one_eq_mod _ 4
    have hmask : (0x0F : UInt8).toNat = 15 := rfl
    rw [toNat_shiftLeft12, UInt8.toNat_toUInt16, UInt8.toNat_and, hmask, h]
    omega
  have hmiddle : (payload b <<< 6).toNat = b.toNat % 64 * 64 := by
    rw [toNat_shiftLeft6, toNat_payload]
    omega
  have hjoin : a.toNat % 16 * 4096 ||| b.toNat % 64 * 64 =
      a.toNat % 16 * 4096 + b.toNat % 64 * 64 := or_eq_add (n := 12) (by omega) (by omega)
  rw [UInt16.toNat_or, UInt16.toNat_or, hhigh, hmiddle, toNat_payload, hjoin]
  exact or_eq_add (n := 6) (by omega) (by omega)

/-! ## 2. One unit -/

theorem decodeUnits_one {a : UInt8} (h : a < 0x80) (offset : Nat) (rest : List UInt8) :
    decodeUnits offset (a :: rest) = (decodeUnits (offset + 1) rest).map (a.toUInt16 :: ·) := by
  rw [decodeUnits.eq_def]
  simp only [if_pos h]

theorem decodeUnits_two {a b : UInt8} (ha : a.toNat / 32 = 6) (hb : isContinuation b = true)
    (offset : Nat) (rest : List UInt8) :
    decodeUnits offset (a :: b :: rest) = (decodeUnits (offset + 2) rest).map
      (((a &&& 0x1F).toUInt16 <<< 6 ||| payload b) :: ·) := by
  have h₁ : ¬ a < 0x80 := by
    rw [UInt8.lt_iff_toNat_lt, show (0x80 : UInt8).toNat = 128 from rfl]
    omega
  have h₂ : (a >>> 5 == 6) = true := by
    rw [beq_iff_eq, ← UInt8.toNat_inj, UInt8.toNat_shiftRight, Nat.shiftRight_eq_div_pow]
    exact ha
  rw [decodeUnits.eq_def]
  simp only [if_neg h₁, if_pos h₂, if_pos hb]

theorem decodeUnits_three {a b c : UInt8} (ha : a.toNat / 16 = 14) (hb : isContinuation b = true)
    (hc : isContinuation c = true) (offset : Nat) (rest : List UInt8) :
    decodeUnits offset (a :: b :: c :: rest) = (decodeUnits (offset + 3) rest).map
      (((a &&& 0x0F).toUInt16 <<< 12 ||| payload b <<< 6 ||| payload c) :: ·) := by
  have h₁ : ¬ a < 0x80 := by
    rw [UInt8.lt_iff_toNat_lt, show (0x80 : UInt8).toNat = 128 from rfl]
    omega
  have h₂ : ¬ (a >>> 5 == 6) = true := by
    rw [beq_iff_eq, ← UInt8.toNat_inj, UInt8.toNat_shiftRight, Nat.shiftRight_eq_div_pow]
    intro h
    have h : a.toNat / 32 = 6 := h
    omega
  have h₃ : (a >>> 4 == 14) = true := by
    rw [beq_iff_eq, ← UInt8.toNat_inj, UInt8.toNat_shiftRight, Nat.shiftRight_eq_div_pow]
    exact ha
  rw [decodeUnits.eq_def]
  simp only [if_neg h₁, if_neg h₂, if_pos h₃, if_pos hb, if_pos hc]

theorem unit_of_two {a b : UInt8} {u : UInt16} (ha : a.toNat = 0xC0 + u.toNat / 64)
    (hb : b = continuation u) (hu : u.toNat < 0x800) :
    (a &&& 0x1F).toUInt16 <<< 6 ||| payload b = u := by
  rw [← UInt16.toNat_inj, toNat_two, ha, hb, toNat_continuation]
  omega

theorem unit_of_three {a b c : UInt8} {u : UInt16} (ha : a.toNat = 0xE0 + u.toNat / 4096)
    (hb : b = continuation (u >>> 6)) (hc : c = continuation u) :
    (a &&& 0x0F).toUInt16 <<< 12 ||| payload b <<< 6 ||| payload c = u := by
  have hu := u.toNat_lt
  rw [← UInt16.toNat_inj, toNat_three, ha, hb, hc, toNat_continuation, toNat_continuation,
    toNat_shift6]
  omega

/-- **The bytes of a unit** are read back, whatever comes after them. -/
theorem decodeUnits_encodeUnit (offset : Nat) (u : UInt16) (rest : List UInt8) :
    decodeUnits offset (encodeUnit u ++ rest) =
      (decodeUnits (offset + (encodeUnit u).length) rest).map (u :: ·) := by
  have hu := u.toNat_lt
  have hlt : ∀ n : Nat, n < 0x10000 → (u < UInt16.ofNat n ↔ u.toNat < n) := by
    intro n hn
    rw [UInt16.lt_iff_toNat_lt, UInt16.toNat_ofNat_of_lt' hn]
  unfold encodeUnit
  split
  case isTrue h =>
    have hsmall : u < 0x80 := of_decide_eq_true (Bool.and_eq_true_iff.mp h).2
    have h : u.toNat < 0x80 := (hlt 0x80 (by decide)).mp hsmall
    have hb : u.toUInt8.toNat = u.toNat := by
      rw [UInt16.toNat_toUInt8]
      omega
    have hback : u.toUInt8.toUInt16 = u := by
      rw [← UInt16.toNat_inj, UInt8.toNat_toUInt16, hb]
    have hone : u.toUInt8 < 0x80 := by
      rw [UInt8.lt_iff_toNat_lt, hb]
      exact h
    rw [List.singleton_append, decodeUnits_one hone, hback]
    rfl
  case isFalse =>
    split
    case isTrue h =>
      have h : u.toNat < 0x800 := (hlt 0x800 (by decide)).mp h
      have hshift := toNat_shift6 u
      have ha := toNat_lead (u >>> 6) 0xC0 (by omega) (by decide)
      rw [hshift, show (0xC0 : UInt8).toNat = 0xC0 from rfl] at ha
      rw [List.cons_append, List.singleton_append,
        decodeUnits_two (by omega) (isContinuation_continuation u), unit_of_two ha rfl h]
      rfl
    case isFalse =>
      have hshift := toNat_shift12 u
      have ha := toNat_lead (u >>> 12) 0xE0 (by omega) (by decide)
      rw [hshift, show (0xE0 : UInt8).toNat = 0xE0 from rfl] at ha
      rw [List.cons_append, List.cons_append, List.singleton_append,
        decodeUnits_three (by omega) (isContinuation_continuation _)
          (isContinuation_continuation u), unit_of_three ha rfl rfl]
      rfl

/-! ## 3. Strings -/

theorem decodeUnits_flatMap (us : List UInt16) (offset : Nat) :
    decodeUnits offset (us.flatMap encodeUnit) = .ok us := by
  induction us generalizing offset with
  | nil => rfl
  | cons u rest ih =>
    rw [List.flatMap_cons, decodeUnits_encodeUnit, ih]
    rfl

/-- **A string reads back** from its bytes. -/
theorem decode_encode (s : String) : decode (encode s) = .ok s := by
  rw [decode, encode, decodeUnits_flatMap]
  simp only [bind, Except.bind, Text.chars?_units, String.ofList_toList]

theorem continuation_ne_zero (u : UInt16) : continuation u ≠ 0 := by
  intro hz
  have hn := congrArg UInt8.toNat hz
  rw [toNat_continuation, UInt8.toNat_zero] at hn
  omega

theorem or_ne_zero {x mark : UInt8} (h : mark ≠ 0) : x ||| mark ≠ 0 := by
  intro hz
  have hn := congrArg UInt8.toNat hz
  rw [UInt8.toNat_or, UInt8.toNat_zero] at hn
  exact h (UInt8.toNat_inj.mp (Nat.or_eq_zero_iff.mp hn).2)

theorem ne_zero_of_mem_encodeUnit {u : UInt16} {b : UInt8} (h : b ∈ encodeUnit u) : b ≠ 0 := by
  unfold encodeUnit at h
  split at h
  case isTrue hu =>
    simp only [Bool.and_eq_true, decide_eq_true_eq, UInt16.lt_iff_toNat_lt] at hu
    have hpos : 0 < u.toNat := hu.1
    have hlt : u.toNat < 0x80 := hu.2
    rw [List.mem_singleton.mp h]
    intro hz
    have hn := congrArg UInt8.toNat hz
    rw [UInt16.toNat_toUInt8, UInt8.toNat_zero] at hn
    omega
  case isFalse =>
    split at h
    · rcases List.mem_cons.mp h with rfl | h
      · exact or_ne_zero (by decide)
      · rw [List.mem_singleton.mp h]
        exact continuation_ne_zero u
    · rcases List.mem_cons.mp h with rfl | h
      · exact or_ne_zero (by decide)
      · rcases List.mem_cons.mp h with rfl | h
        · exact continuation_ne_zero _
        · rw [List.mem_singleton.mp h]
          exact continuation_ne_zero u

theorem ne_zero_of_mem_encode {s : String} {b : UInt8} (h : b ∈ encode s) : b ≠ 0 := by
  obtain ⟨u, -, hb⟩ := List.mem_flatMap.mp h
  exact ne_zero_of_mem_encodeUnit hb

/-! ## 4. Lengths -/

/-- A unit takes as many bytes as it needs, and never less than the character that it spells. -/
theorem le_length_encodeUnit (u : UInt16) :
    1 ≤ (encodeUnit u).length ∧ (0x80 ≤ u.toNat → 2 ≤ (encodeUnit u).length) ∧
      (0x800 ≤ u.toNat → 3 ≤ (encodeUnit u).length) := by
  unfold encodeUnit
  split
  case isTrue h =>
    have hlt : u < 0x80 := of_decide_eq_true (Bool.and_eq_true_iff.mp h).2
    have hn : u.toNat < 0x80 := UInt16.lt_iff_toNat_lt.mp hlt
    exact ⟨Nat.le_refl 1, by omega, by omega⟩
  case isFalse =>
    split
    case isTrue h =>
      have hn : u.toNat < 0x800 := UInt16.lt_iff_toNat_lt.mp h
      exact ⟨Nat.le_succ 1, fun _ => Nat.le_refl 2, by omega⟩
    case isFalse => exact ⟨Nat.le_add_left 1 2, fun _ => Nat.le_succ 2, fun _ => Nat.le_refl 3⟩

theorem utf8Size_le (c : Char) : c.utf8Size ≤ ((Text.charUnits c).flatMap encodeUnit).length := by
  have hc := Text.toNat_char c
  have hle : ∀ n : UInt32, c.val ≤ n ↔ c.toNat ≤ n.toNat := fun _ => UInt32.le_iff_toNat_le
  unfold Text.charUnits
  dsimp only
  split
  case isTrue h =>
    obtain ⟨hone, htwo, hthree⟩ := le_length_encodeUnit c.toNat.toUInt16
    rw [Text.toNat_unit h] at htwo hthree
    rw [List.flatMap_singleton]
    unfold Char.utf8Size
    simp only [hle, UInt32.toNat_ofNatLT]
    repeat' split
    all_goals omega
  case isFalse h =>
    obtain ⟨-, -, hhigh⟩ :=
      le_length_encodeUnit (0xD800 + (c.toNat - 0x10000) / 0x400).toUInt16
    obtain ⟨hlow, -⟩ := le_length_encodeUnit (0xDC00 + (c.toNat - 0x10000) % 0x400).toUInt16
    have hunit : (0xD800 + (c.toNat - 0x10000) / 0x400).toUInt16.toNat =
        0xD800 + (c.toNat - 0x10000) / 0x400 := Text.toNat_unit (by omega)
    have hfour := c.utf8Size_le_four
    rw [List.flatMap_cons, List.flatMap_singleton, List.length_append]
    omega

/-- The encoded form of a string is at least as long as its UTF-8 form. -/
theorem utf8ByteSize_le (s : String) : s.utf8ByteSize ≤ (encode s).length := by
  have hbytes : s.utf8ByteSize = (s.toList.flatMap String.utf8EncodeChar).length := by
    rw [← List.size_toByteArray, ← List.utf8Encode, ← String.toByteArray_ofList,
      String.ofList_toList, String.size_toByteArray]
  rw [hbytes, encode, Text.units]
  induction s.toList with
  | nil => exact Nat.le_refl 0
  | cons c rest ih =>
    have hc := utf8Size_le c
    rw [List.flatMap_cons, List.flatMap_cons, List.flatMap_append, List.length_append,
      List.length_append, String.length_utf8EncodeChar]
    omega

end Dalvik.Mutf8
