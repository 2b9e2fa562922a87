/-
# Fields of bits

A number is put together from fields of bits by shifting and joining, and taken apart by shifting
and masking.  On numbers these are products, sums, quotients and remainders; the lemmas here say so,
and what is proved of packed forms is proved of sums.
-/
import Mathlib.Algebra.Group.Nat.Defs

namespace Dalvik

/-- Joining two fields that do not overlap adds them. -/
theorem or_eq_add {a b n : Nat} (hb : b < 2 ^ n) (ha : 2 ^ n ∣ a) : a ||| b = a + b := by
  obtain ⟨k, rfl⟩ := ha
  exact (Nat.two_pow_add_eq_or_of_lt hb k).symm

end Dalvik
