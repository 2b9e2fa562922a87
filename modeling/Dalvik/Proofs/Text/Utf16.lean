/-
# Strings by their code units

The code units of a string spell its characters and nothing else: a character below U+10000 is one
unit that is no surrogate, any other is a pair of them, and the reader takes both back.  So strings
with equal units are equal, and the order of the string pool is a linear order on strings.

* `chars?_units` and `units_injective` say that nothing is lost;
* the instances below make `compareUnits` an order to which the library's theorems apply.
-/
import Mathlib.Logic.Function.Defs
import Dalvik.Text.Utf16

namespace Dalvik.Text

/-! ## 1. One character -/

/-- No character is a surrogate. -/
theorem toNat_char (c : Char) : c.toNat < 0xD800 ∨ 0xDFFF < c.toNat ∧ c.toNat < 0x110000 :=
  c.valid

theorem toNat_unit {n : Nat} (h : n < 0x10000) : n.toUInt16.toNat = n := by
  rw [Nat.toUInt16_eq, UInt16.toNat_ofNat_of_lt' h]

theorem isHighSurrogate_iff {u : UInt16} :
    isHighSurrogate u = true ↔ 0xD800 ≤ u.toNat ∧ u.toNat < 0xDC00 := by
  simp only [isHighSurrogate, Bool.and_eq_true, decide_eq_true_eq, UInt16.le_iff_toNat_le,
    UInt16.lt_iff_toNat_lt]
  exact .rfl

theorem isLowSurrogate_iff {u : UInt16} :
    isLowSurrogate u = true ↔ 0xDC00 ≤ u.toNat ∧ u.toNat < 0xE000 := by
  simp only [isLowSurrogate, Bool.and_eq_true, decide_eq_true_eq, UInt16.le_iff_toNat_le,
    UInt16.lt_iff_toNat_lt]
  exact .rfl

theorem chars?_unit {u : UInt16} (hh : ¬ isHighSurrogate u = true) (hl : ¬ isLowSurrogate u = true)
    (rest : List UInt16) : chars? (u :: rest) = (chars? rest).map (Char.ofNat u.toNat :: ·) := by
  rw [chars?.eq_def]
  simp only [if_neg hh, if_neg hl]

theorem chars?_pair {u v : UInt16} (hh : isHighSurrogate u = true) (hl : isLowSurrogate v = true)
    (rest : List UInt16) : chars? (u :: v :: rest) = (chars? rest).map (pairChar u v :: ·) := by
  rw [chars?.eq_def]
  simp only [if_pos hh, if_pos hl]

/-- The units of a character, read with any units after them. -/
theorem chars?_charUnits (c : Char) (rest : List UInt16) :
    chars? (charUnits c ++ rest) = (chars? rest).map (c :: ·) := by
  have hc := toNat_char c
  unfold charUnits
  dsimp only
  split
  case isTrue h =>
    have hu := toNat_unit h
    have hhigh : ¬ isHighSurrogate c.toNat.toUInt16 = true := by
      rw [isHighSurrogate_iff, hu]
      omega
    have hlow : ¬ isLowSurrogate c.toNat.toUInt16 = true := by
      rw [isLowSurrogate_iff, hu]
      omega
    rw [List.singleton_append, chars?_unit hhigh hlow, hu, Char.ofNat_toNat]
  case isFalse h =>
    have hu := toNat_unit (n := 0xD800 + (c.toNat - 0x10000) / 0x400) (by omega)
    have hv := toNat_unit (n := 0xDC00 + (c.toNat - 0x10000) % 0x400) (by omega)
    have hhigh : isHighSurrogate (0xD800 + (c.toNat - 0x10000) / 0x400).toUInt16 = true := by
      rw [isHighSurrogate_iff, hu]
      omega
    have hlow : isLowSurrogate (0xDC00 + (c.toNat - 0x10000) % 0x400).toUInt16 = true := by
      rw [isLowSurrogate_iff, hv]
      omega
    have hpair : pairChar (0xD800 + (c.toNat - 0x10000) / 0x400).toUInt16
        (0xDC00 + (c.toNat - 0x10000) % 0x400).toUInt16 = c := by
      have hn : 0x10000 + (0xD800 + (c.toNat - 0x10000) / 0x400 - 0xD800) * 0x400 +
          (0xDC00 + (c.toNat - 0x10000) % 0x400 - 0xDC00) = c.toNat := by omega
      rw [pairChar, hu, hv, hn, Char.ofNat_toNat]
    rw [List.cons_append, List.singleton_append, chars?_pair hhigh hlow, hpair]

/-! ## 2. Strings -/

/-- **The units of a string** read back. -/
theorem chars?_units (s : String) : chars? (units s) = some s.toList := by
  rw [units]
  induction s.toList with
  | nil => rfl
  | cons c rest ih => rw [List.flatMap_cons, chars?_charUnits, ih, Option.map_some]

theorem units_injective : Function.Injective units := by
  intro a b h
  have hs := congrArg chars? h
  rw [chars?_units, chars?_units, Option.some.injEq] at hs
  exact String.toList_injective hs

/-! ## 3. Order -/

instance : Std.OrientedCmp compareUnits where
  eq_swap := Std.OrientedOrd.eq_swap

instance : Std.TransCmp compareUnits where
  isLE_trans := Std.TransOrd.isLE_trans

/-- **Strings that compare as equal are equal.** -/
instance : Std.LawfulEqCmp compareUnits where
  compare_self := Std.ReflOrd.compare_self
  eq_of_compare h := units_injective (Std.LawfulEqOrd.eq_of_compare h)

end Dalvik.Text
