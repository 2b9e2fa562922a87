/-
# Two's complement

Signed numbers of a given number of bits, as a range of integers and as what a bit pattern stands
for.

Main statements: `signed_pattern` and `pattern_signed`, that numbers in range and patterns stand for
each other.
-/
import Dalvik.Bytes.Power

namespace Dalvik

/-- Whether a number is one of `bits` bits in two's complement. -/
def fitsSigned (bits : Nat) (value : Int) : Bool :=
  -(pow2 (bits - 1) : Int) ≤ value && value < pow2 (bits - 1)

/-- The number that a pattern of `bits` bits stands for. -/
def signed (bits : Nat) (pattern : Nat) : Int :=
  if pattern < pow2 (bits - 1) then pattern else (pattern : Int) - pow2 bits

/-- The pattern of `bits` bits that stands for a number, modulo a power of two. -/
def pattern (bits : Nat) (value : Int) : Nat :=
  (value % pow2 bits).toNat

theorem fitsSigned_iff {bits : Nat} {value : Int} :
    fitsSigned bits value = true ↔
      -(pow2 (bits - 1) : Int) ≤ value ∧ value < pow2 (bits - 1) := by
  simp [fitsSigned]

theorem fitsSigned_mono {a b : Nat} {v : Int} (hab : a ≤ b) (h : fitsSigned a v = true) :
    fitsSigned b v = true := by
  have hp := pow2_le (a := a - 1) (b := b - 1) (by omega)
  rw [fitsSigned_iff] at h ⊢
  omega

theorem pattern_lt (bits : Nat) (value : Int) : pattern bits value < pow2 bits := by
  have h : (0 : Int) < pow2 bits := by exact_mod_cast pow2_pos bits
  have := Int.emod_lt_of_pos value h
  have := Int.emod_nonneg value (Int.ne_of_gt h)
  simp only [pattern]
  omega

/-- **A number in range is read back from its pattern.** -/
theorem signed_pattern {bits : Nat} {value : Int} (hb : 0 < bits) (h : fitsSigned bits value) :
    signed bits (pattern bits value) = value := by
  have hp := pow2_pred hb
  have hpos := pow2_pos (bits - 1)
  obtain ⟨hl, hu⟩ := fitsSigned_iff.mp h
  rcases Int.lt_or_le value 0 with hv | hv
  · have e : value % (pow2 bits : Int) = value + pow2 bits := by
      rw [← Int.add_emod_right]; exact Int.emod_eq_of_lt (by omega) (by omega)
    simp only [signed, pattern, e]
    split <;> omega
  · have e : value % (pow2 bits : Int) = value := Int.emod_eq_of_lt hv (by omega)
    simp only [signed, pattern, e]
    split <;> omega

/-- **A pattern is that of the number it stands for.** -/
theorem pattern_signed {bits n : Nat} (h : n < pow2 bits) : pattern bits (signed bits n) = n := by
  have hn : (n : Int) % (pow2 bits : Int) = n := Int.emod_eq_of_lt (by omega) (by omega)
  simp only [signed, pattern]
  split
  · omega
  · rw [Int.sub_emod_right, hn]; omega

theorem fitsSigned_signed {bits n : Nat} (hb : 0 < bits) (h : n < pow2 bits) :
    fitsSigned bits (signed bits n) := by
  have hp := pow2_pred hb
  rw [fitsSigned_iff]
  simp only [signed]
  split <;> omega

theorem fitsSigned_toInt16 (value : Int16) : fitsSigned 16 value.toInt := by
  rw [fitsSigned_iff]
  exact ⟨value.le_toInt, value.toInt_lt⟩

theorem fitsSigned_toInt32 (value : Int32) : fitsSigned 32 value.toInt := by
  rw [fitsSigned_iff]
  exact ⟨value.le_toInt, value.toInt_lt⟩

theorem fitsSigned_toInt64 (value : Int64) : fitsSigned 64 value.toInt := by
  rw [fitsSigned_iff]
  exact ⟨value.le_toInt, value.toInt_lt⟩

end Dalvik
