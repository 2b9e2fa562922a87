/-
# Powers of two

`pow2 bits` is the number of patterns of `bits` bits.  It bounds fields, and it is what a shift by
`bits` multiplies or divides by.
-/

namespace Dalvik

/-- The number of patterns of `bits` bits. -/
def pow2 (bits : Nat) : Nat :=
  Nat.pow 2 bits

@[simp] theorem pow2_zero : pow2 0 = 1 := rfl

theorem pow2_add (a b : Nat) : pow2 (a + b) = pow2 a * pow2 b :=
  Nat.pow_add 2 a b

theorem pow2_pos (bits : Nat) : 0 < pow2 bits :=
  Nat.pow_pos (by decide)

theorem pow2_le {a b : Nat} (h : a ≤ b) : pow2 a ≤ pow2 b :=
  Nat.pow_le_pow_right (by decide) h

theorem pow2_pred {bits : Nat} (h : 0 < bits) : pow2 bits = 2 * pow2 (bits - 1) := by
  obtain ⟨b, rfl⟩ : ∃ b, bits = b + 1 := ⟨bits - 1, by omega⟩
  rw [Nat.add_sub_cancel, Nat.add_comm, pow2_add]
  rfl

end Dalvik
