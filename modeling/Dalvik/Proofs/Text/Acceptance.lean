/-
# What the reader of modified UTF-8 accepts

The reader takes groups of one, two or three bytes, by the first of them, and each spells a unit.  A
group may be longer than its unit needs, and a zero byte spells a unit like any other.  The units
have to be those of a string, so that no surrogate stands alone; then the string is unique.

* `Spells` is the grammar, in numbers;
* `decodeUnits_eq_ok_iff` and `chars?_eq_some_iff`: both stages of reading, each as an equivalence;
* `strings_read_back`: what is written is read back, and what is read at all.
-/
import Dalvik.Proofs.Bytes.Reading

namespace Dalvik

/-! ## 1. Characters -/

namespace Text

theorem toNat_ofNat {code : Nat} (h : code.isValidChar) : (Char.ofNat code).toNat = code := by
  rw [Char.ofNat, dif_pos h]
  rfl

/-- The unit of a character below U+10000. -/
theorem charUnits_of_unit {u : UInt16} (hh : ¬ isHighSurrogate u = true)
    (hl : ¬ isLowSurrogate u = true) : charUnits (Char.ofNat u.toNat) = [u] := by
  have hlt := u.toNat_lt
  rw [isHighSurrogate_iff] at hh
  rw [isLowSurrogate_iff] at hl
  have hvalid : u.toNat.isValidChar := by
    rw [Nat.isValidChar]
    omega
  have hcode : (Char.ofNat u.toNat).toNat = u.toNat := toNat_ofNat hvalid
  have hunit : u.toNat.toUInt16 = u := UInt16.ofNat_toNat
  rw [charUnits, hcode, hunit]
  exact if_pos hlt

/-- The units of a character from U+10000 on. -/
theorem charUnits_pairChar {u v : UInt16} (hh : isHighSurrogate u = true)
    (hl : isLowSurrogate v = true) : charUnits (pairChar u v) = [u, v] := by
  rw [isHighSurrogate_iff] at hh
  rw [isLowSurrogate_iff] at hl
  have hvalid : (0x10000 + (u.toNat - 0xD800) * 0x400 + (v.toNat - 0xDC00)).isValidChar := by
    rw [Nat.isValidChar]
    omega
  have hcode : (pairChar u v).toNat =
      0x10000 + (u.toNat - 0xD800) * 0x400 + (v.toNat - 0xDC00) := toNat_ofNat hvalid
  have hhigh : 0xD800 + ((pairChar u v).toNat - 0x10000) / 0x400 = u.toNat := by omega
  have hlow : 0xDC00 + ((pairChar u v).toNat - 0x10000) % 0x400 = v.toNat := by omega
  have hu : u.toNat.toUInt16 = u := UInt16.ofNat_toNat
  have hv : v.toNat.toUInt16 = v := UInt16.ofNat_toNat
  rw [charUnits, hhigh, hlow, hu, hv]
  exact if_neg (by omega)

/-- **The characters** that units spell are those whose units they are. -/
theorem chars?_eq_some_iff {us : List UInt16} {cs : List Char} :
    chars? us = some cs ↔ us = cs.flatMap charUnits := by
  constructor
  · intro h
    fun_induction chars? us generalizing cs with
    | case1 => simp_all
    | case2 => cases h
    | case3 u hu v rest hv ih =>
      obtain ⟨tail, htail, rfl⟩ := Option.map_eq_some_iff.mp h
      rw [List.flatMap_cons, charUnits_pairChar hu hv, ← ih htail]
      rfl
    | case4 => cases h
    | case5 => cases h
    | case6 u rest hh hl ih =>
      obtain ⟨tail, htail, rfl⟩ := Option.map_eq_some_iff.mp h
      rw [List.flatMap_cons, charUnits_of_unit hh hl, ← ih htail]
      rfl
  · rintro rfl
    induction cs with
    | nil => rfl
    | cons c cs ih => rw [List.flatMap_cons, chars?_charUnits, ih, Option.map_some]

end Text

namespace Mutf8

open Text (units chars? charUnits)

/-! ## 2. Groups -/

/-- Bytes in groups of one, two and three, and the unit that each group spells. -/
inductive Spells : List UInt8 → List UInt16 → Prop
  | nil : Spells [] []
  | one {a : UInt8} {rest : List UInt8} {u : UInt16} {us : List UInt16} (ha : a.toNat < 0x80)
    (hu : u.toNat = a.toNat) (h : Spells rest us) : Spells (a :: rest) (u :: us)
  | two {a b : UInt8} {rest : List UInt8} {u : UInt16} {us : List UInt16}
    (ha : 0xC0 ≤ a.toNat ∧ a.toNat < 0xE0) (hb : 0x80 ≤ b.toNat ∧ b.toNat < 0xC0)
    (hu : u.toNat = a.toNat % 32 * 64 + b.toNat % 64) (h : Spells rest us) :
    Spells (a :: b :: rest) (u :: us)
  | three {a b c : UInt8} {rest : List UInt8} {u : UInt16} {us : List UInt16}
    (ha : 0xE0 ≤ a.toNat ∧ a.toNat < 0xF0) (hb : 0x80 ≤ b.toNat ∧ b.toNat < 0xC0)
    (hc : 0x80 ≤ c.toNat ∧ c.toNat < 0xC0)
    (hu : u.toNat = a.toNat % 16 * 4096 + b.toNat % 64 * 64 + c.toNat % 64) (h : Spells rest us) :
    Spells (a :: b :: c :: rest) (u :: us)

theorem isContinuation_iff {b : UInt8} :
    isContinuation b = true ↔ 0x80 ≤ b.toNat ∧ b.toNat < 0xC0 := by
  have hbits : ∀ n < 256, n &&& 0xC0 = 0x80 ↔ 0x80 ≤ n ∧ n < 0xC0 := by decide +kernel
  have hmask : (0xC0 : UInt8).toNat = 0xC0 := rfl
  have hmark : (0x80 : UInt8).toNat = 0x80 := rfl
  rw [isContinuation, beq_iff_eq, ← UInt8.toNat_inj, UInt8.toNat_and, hmask, hmark,
    hbits _ b.toNat_lt]

/-- The first byte of a group of two. -/
theorem leadsTwo_iff {a : UInt8} : (a >>> 5 == 6) = true ↔ 0xC0 ≤ a.toNat ∧ a.toNat < 0xE0 := by
  have hshift : (a >>> 5).toNat = a.toNat / 32 := by
    rw [UInt8.toNat_shiftRight, Nat.shiftRight_eq_div_pow]
    rfl
  rw [beq_iff_eq, ← UInt8.toNat_inj, hshift, show (6 : UInt8).toNat = 6 from rfl]
  omega

/-- The first byte of a group of three. -/
theorem leadsThree_iff {a : UInt8} :
    (a >>> 4 == 14) = true ↔ 0xE0 ≤ a.toNat ∧ a.toNat < 0xF0 := by
  have hshift : (a >>> 4).toNat = a.toNat / 16 := by
    rw [UInt8.toNat_shiftRight, Nat.shiftRight_eq_div_pow]
    rfl
  rw [beq_iff_eq, ← UInt8.toNat_inj, hshift, show (14 : UInt8).toNat = 14 from rfl]
  omega

/-- Bytes in groups are read as their units. -/
theorem decodeUnits_of_spells {bytes : List UInt8} {us : List UInt16} (h : Spells bytes us)
    (offset : Nat) : decodeUnits offset bytes = .ok us := by
  induction h generalizing offset with
  | nil => rfl
  | @one a rest u us ha hu _ ih =>
    have hunit : a.toUInt16 = u := by
      rw [← UInt16.toNat_inj, UInt8.toNat_toUInt16, hu]
    rw [decodeUnits_one (UInt8.lt_iff_toNat_lt.mpr ha), ih, hunit]
    rfl
  | @two a b rest u us ha hb hu _ ih =>
    have hunit : (a &&& 0x1F).toUInt16 <<< 6 ||| payload b = u := by
      rw [← UInt16.toNat_inj, toNat_two, hu]
    rw [decodeUnits_two (by omega) (isContinuation_iff.mpr hb), ih, hunit]
    rfl
  | @three a b c rest u us ha hb hc hu _ ih =>
    have hunit : (a &&& 0x0F).toUInt16 <<< 12 ||| payload b <<< 6 ||| payload c = u := by
      rw [← UInt16.toNat_inj, toNat_three, hu]
    rw [decodeUnits_three (by omega) (isContinuation_iff.mpr hb) (isContinuation_iff.mpr hc), ih,
      hunit]
    rfl

/-- Bytes that are read are in groups. -/
theorem spells_of_decodeUnits {bytes : List UInt8} {us : List UInt16} {offset : Nat}
    (h : decodeUnits offset bytes = .ok us) : Spells bytes us := by
  fun_induction decodeUnits offset bytes generalizing us with
  | case1 =>
    cases h
    exact .nil
  | case2 offset a rest ha ih =>
    obtain ⟨tail, htail, rfl⟩ := map_eq_ok.mp h
    exact .one (UInt8.lt_iff_toNat_lt.mp ha) (UInt8.toNat_toUInt16 a) (ih htail)
  | case4 offset a _ ha b rest hb ih =>
    obtain ⟨tail, htail, rfl⟩ := map_eq_ok.mp h
    exact .two (leadsTwo_iff.mp ha) (isContinuation_iff.mp hb) (toNat_two a b) (ih htail)
  | case8 offset a _ _ ha b hb c rest hc ih =>
    obtain ⟨tail, htail, rfl⟩ := map_eq_ok.mp h
    exact .three (leadsThree_iff.mp ha) (isContinuation_iff.mp hb) (isContinuation_iff.mp hc)
      (toNat_three a b c) (ih htail)
  | case3 | case5 | case6 | case7 | case9 | case10 | case11 =>
    -- no group of its length stands there
    cases h

/-- **The bytes that are read** as units are those in groups that spell them. -/
theorem decodeUnits_eq_ok_iff {bytes : List UInt8} {us : List UInt16} {offset : Nat} :
    decodeUnits offset bytes = .ok us ↔ Spells bytes us :=
  ⟨spells_of_decodeUnits, fun h => decodeUnits_of_spells h offset⟩

/-! ## 3. Strings -/

/-- **The bytes that are read** as a string are those in groups that spell its units. -/
theorem decode_eq_ok_iff {bytes : List UInt8} {s : String} :
    decode bytes = .ok s ↔ Spells bytes (units s) := by
  rw [decode, bind_eq_ok]
  constructor
  · rintro ⟨us, hus, h⟩
    split at h
    case h_1 cs hcs =>
      obtain rfl := Except.ok.inj h
      rw [units, String.toList_ofList, ← Text.chars?_eq_some_iff.mp hcs]
      exact decodeUnits_eq_ok_iff.mp hus
    case h_2 => cases h
  · intro h
    refine ⟨units s, decodeUnits_eq_ok_iff.mpr h, ?_⟩
    rw [Text.chars?_units]
    exact congrArg Except.ok String.ofList_toList

/-- **Strings read back.**  The bytes of a string are read as the string, none of them is zero, and
where a zero follows them the string is read up to behind the zero, whatever is before and after.
Bytes are read as a string if and only if they are groups that spell its units. -/
theorem strings_read_back (s : String) (before after : List UInt8) :
    decode (encode s) = .ok s ∧ 0 ∉ encode s ∧
      Cursor.mutf8 ⟨before ++ (encode s ++ 0 :: after), before.length⟩ =
        .ok s ⟨before ++ (encode s ++ 0 :: after), before.length + (encode s).length + 1⟩ ∧
      ∀ bytes, decode bytes = .ok s ↔ Spells bytes (units s) := by
  refine ⟨decode_encode s, fun h => ne_zero_of_mem_encode h rfl, ?_, fun _ => decode_eq_ok_iff⟩
  have hs : Stands (before ++ (encode s ++ 0 :: after)) before.length (encode s ++ [0]) :=
    ⟨before, after, by rw [List.append_assoc, List.singleton_append], rfl⟩
  rw [Takes.mutf8 _ _ _ hs, List.length_append, List.length_singleton, Nat.add_assoc]

end Mutf8

end Dalvik
