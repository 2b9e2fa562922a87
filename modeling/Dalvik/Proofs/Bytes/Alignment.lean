/-
# Rounding up

There are two ways to the next multiple of an alignment.  One masks the low bits of the highest
candidate, the other adds the remainder that is missing; the first is right for powers of two only.
What both find is the least multiple that is not below the value, and there is only one.

* `isLeast_alignUp` and `isLeast_add_missing`: either way, hence `alignUp_eq_add`;
* `toNat_maskUp`: on machine words the mask does the same, as long as the highest candidate is one;
* `length_pad` and `pad_eq_append`: what padding does to a buffer;
* `Cursor.align_eq`: where a cursor moves.
-/
import Mathlib.Order.Bounds.Basic
import Dalvik.Bytes.Align
import Dalvik.Proofs.Bytes.Groups

namespace Dalvik

namespace Bytes

/-! ## 1. The least multiple -/

variable {k n v : Nat}

/-- The multiples of `n` that are not below `v`. -/
def multiplesFrom (v n : Nat) : Set Nat :=
  {m | v ≤ m ∧ n ∣ m}

theorem alignUp_eq_mul (k v : Nat) :
    alignUp v (2 ^ k) = 2 ^ k * ((v + (2 ^ k - 1)) / 2 ^ k) := by
  have hsplit := Nat.div_add_mod (v + (2 ^ k - 1)) (2 ^ k)
  have hup : alignUp v (2 ^ k) =
      v + (2 ^ k - 1) - ((v + (2 ^ k - 1)) &&& (2 ^ k - 1)) := rfl
  rw [hup, Nat.and_two_pow_sub_one_eq_mod]
  omega

/-- **Masking the low bits** of the highest candidate gives the least multiple of a power of two. -/
theorem isLeast_alignUp (k v : Nat) : IsLeast (multiplesFrom v (2 ^ k)) (alignUp v (2 ^ k)) := by
  refine ⟨⟨le_alignUp v (2 ^ k), ?_⟩, ?_⟩
  · rw [alignUp_eq_mul]
    exact Nat.dvd_mul_right ..
  · rintro m ⟨hle, j, rfl⟩
    have hpos : 0 < 2 ^ k := Nat.two_pow_pos k
    have hlt : v + (2 ^ k - 1) < 2 ^ k * (j + 1) := by
      rw [Nat.mul_succ]
      omega
    rw [alignUp_eq_mul]
    exact Nat.mul_le_mul_left _ (Nat.le_of_lt_succ (Nat.div_lt_of_lt_mul hlt))

/-- **Adding what is missing** to the next multiple gives the least multiple of any number. -/
theorem isLeast_add_missing (hn : 0 < n) (v : Nat) :
    IsLeast (multiplesFrom v n) (v + (n - v % n) % n) := by
  have hmod := Nat.mod_lt v hn
  have hmissing := Nat.mod_lt (n - v % n) hn
  have hdvd : n ∣ v + (n - v % n) % n := by
    have hsum : v + (n - v % n) = n * (v / n + 1) := by
      have hsplit := Nat.div_add_mod v n
      rw [Nat.mul_succ]
      omega
    rw [Nat.dvd_iff_mod_eq_zero, Nat.add_mod_mod, hsum, Nat.mul_mod_right]
  refine ⟨⟨Nat.le_add_right .., hdvd⟩, ?_⟩
  rintro m ⟨hle, hm⟩
  -- two multiples that are less than `n` apart are one
  by_contra hlt
  have hstep := Nat.le_of_dvd (by omega) (Nat.dvd_sub hdvd hm)
  omega

/-- **Both ways agree** on powers of two. -/
theorem alignUp_eq_add (k v : Nat) : alignUp v (2 ^ k) = v + (2 ^ k - v % 2 ^ k) % 2 ^ k :=
  (isLeast_alignUp k v).unique (isLeast_add_missing (Nat.two_pow_pos k) v)

theorem padding_eq (k v : Nat) : padding v (2 ^ k) = (2 ^ k - v % 2 ^ k) % 2 ^ k := by
  rw [padding, alignUp_eq_add, Nat.add_sub_cancel_left]

theorem add_padding (v n : Nat) : v + padding v n = alignUp v n :=
  Nat.add_sub_cancel' (le_alignUp v n)

/-- Rounding up within a region that begins at a multiple is rounding up from the start. -/
theorem add_alignUp {base : Nat} (h : 2 ^ k ∣ base) (v : Nat) :
    base + alignUp v (2 ^ k) = alignUp (base + v) (2 ^ k) := by
  obtain ⟨⟨hle, hdvd⟩, hleast⟩ := isLeast_alignUp k v
  have hleast' : IsLeast (multiplesFrom (base + v) (2 ^ k)) (base + alignUp v (2 ^ k)) := by
    refine ⟨⟨Nat.add_le_add_left hle base, Nat.dvd_add h hdvd⟩, ?_⟩
    rintro m ⟨hm, hmdvd⟩
    have hwithin := hleast ⟨Nat.le_sub_of_add_le' hm, Nat.dvd_sub hmdvd h⟩
    omega
  exact hleast'.unique (isLeast_alignUp k (base + v))

/-! ## 2. Machine words -/

/-- Clearing the bits of a mask of ones takes off the remainder. -/
theorem toNat_and_not_ones {x m : UInt64} (hm : m.toNat = 2 ^ k - 1) :
    (x &&& ~~~m).toNat = x.toNat - x.toNat % 2 ^ k := by
  have hdrop : x.toNat - x.toNat % 2 ^ k = x.toNat >>> k <<< k := by
    have hsplit := Nat.div_add_mod x.toNat (2 ^ k)
    rw [Nat.shiftLeft_eq, Nat.shiftRight_eq_div_pow, Nat.mul_comm]
    omega
  rw [hdrop]
  refine Nat.eq_of_testBit_eq fun i => ?_
  have hone : m.toBitVec.getLsbD i = decide (i < k) := by
    rw [← BitVec.testBit_toNat, UInt64.toNat_toBitVec, hm, Nat.testBit_two_pow_sub_one]
  rw [← UInt64.toNat_toBitVec, UInt64.toBitVec_and, UInt64.toBitVec_not, BitVec.testBit_toNat,
    BitVec.getLsbD_and, BitVec.getLsbD_not, hone, Nat.testBit_shiftLeft, Nat.testBit_shiftRight,
    ← UInt64.toNat_toBitVec, BitVec.testBit_toNat]
  rcases Nat.lt_or_ge i k with hlow | hhigh
  · have hcut : ¬ i ≥ k := Nat.not_le.mpr hlow
    simp [hlow, hcut]
  · have hplace : k + (i - k) = i := Nat.add_sub_cancel' hhigh
    have hkept : ¬ i < k := Nat.not_lt.mpr hhigh
    rw [hplace]
    rcases Nat.lt_or_ge i 64 with hin | hout
    · simp [hhigh, hkept, hin]
    · simp [BitVec.getLsbD_of_ge _ _ hout]

/-- **On machine words** clearing the low bits rounds up, if the highest candidate is a word. -/
theorem toNat_maskUp {v n : UInt64} (hn : n.toNat = 2 ^ k)
    (h : v.toNat + (n.toNat - 1) < 2 ^ 64) : (maskUp v n).toNat = alignUp v.toNat n.toNat := by
  have hpos : 0 < 2 ^ k := Nat.two_pow_pos k
  have hmask : (n - 1).toNat = 2 ^ k - 1 := by
    rw [UInt64.toNat_sub_of_le _ _ (UInt64.le_iff_toNat_le.mpr (hn ▸ hpos)), hn]
    rfl
  have hhighest : (v + n - 1).toNat = v.toNat + (2 ^ k - 1) := by
    rw [UInt64.toNat_sub, UInt64.toNat_add, hn]
    rw [hn] at h
    have hone : UInt64.toNat 1 = 1 := rfl
    omega
  rw [maskUp, toNat_and_not_ones hmask, hhighest, hn, ← Nat.and_two_pow_sub_one_eq_mod]
  rfl

/-! ## 3. Buffers and cursors -/

/-- A buffer that is padded keeps its bytes, and zeros follow them. -/
theorem pad_eq_append (bytes : List UInt8) (n : Nat) :
    pad bytes n = bytes ++ List.replicate (padding bytes.length n) 0 := by
  rw [pad, resized, List.take_of_length_le (le_alignUp ..)]
  rfl

theorem length_pad (bytes : List UInt8) (n : Nat) :
    (pad bytes n).length = alignUp bytes.length n := by
  rw [pad_eq_append, List.length_append, List.length_replicate, add_padding]

end Bytes

/-- **A cursor** moves to the least multiple, or stays if that is beyond the end. -/
theorem Cursor.align_eq (k : Nat) (c : Cursor) : Cursor.align (2 ^ k) c =
    if Bytes.alignUp c.position (2 ^ k) ≤ c.data.length then
      .ok () { c with position := Bytes.alignUp c.position (2 ^ k) }
    else .error .outOfBounds c := by
  rw [Bytes.alignUp_eq_add]
  split
  case isTrue hle => exact advance_of_le hle
  case isFalse hlt => exact seek_of_lt (Nat.lt_of_not_le hlt)

end Dalvik
