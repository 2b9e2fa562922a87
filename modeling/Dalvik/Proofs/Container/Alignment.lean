/-
# Alignment of a stream

A stream is padded by its length, and an item is to be aligned by its offset in the container.  The
two agree because every stream begins at a multiple of the alignment: the offset that comes next
after padding is the least multiple that is not below the one that came next before.

Main statement: `alignments_agree`, for masks, machine words, buffers, streams and cursors.
-/
import Dalvik.Proofs.Container.Appending

namespace Dalvik

namespace Stream

variable {s : Stream} {offset : UInt32}

/-- **The offset that comes next** is there as far as it has 32 bits. -/
theorem next_eq_ok_iff : s.next = .ok offset ↔ offset.toNat = s.base.toNat + s.data.size := by
  refine ⟨next_eq_ok, fun h => ?_⟩
  have hlt := offset.toNat_lt
  have hsize : s.data.size < 0x100000000 := by omega
  have hlength : s.data.size.toUInt32.toNat = s.data.size := by
    rw [Nat.toUInt32_eq, UInt32.toNat_ofNat_of_lt' hsize]
  have hnarrow : Bytes.narrow32 s.data.size = .ok s.data.size.toUInt32 := if_pos hsize
  refine bind_eq_ok.mpr ⟨_, hnarrow, ?_⟩
  rw [hlength, if_pos (by omega), pure_eq_ok, ← UInt32.toNat_inj, UInt32.toNat_add, hlength, h]
  omega

theorem isAligned_iff {alignment : UInt32} : s.isAligned alignment = true ↔
    ∃ offset, s.next = .ok offset ∧ alignment.toNat ∣ offset.toNat := by
  have hzero : ∀ offset : UInt32,
      (offset % alignment == 0) = true ↔ alignment.toNat ∣ offset.toNat := by
    intro offset
    rw [beq_iff_eq, ← UInt32.toNat_inj, UInt32.toNat_mod, Nat.dvd_iff_mod_eq_zero]
    rfl
  rw [isAligned]
  cases s.next with
  | error e => simp
  | ok offset => simp only [hzero, Except.ok.injEq, exists_eq_left']

/-- The stream after padding. -/
theorem align_eq (k : Nat) (s : Stream) : ∃ t, align (2 ^ k) s = .ok () t ∧ t.base = s.base ∧
    t.data.toList = Bytes.pad s.data.toList (2 ^ k) ∧
    t.data.size = Bytes.alignUp s.data.size (2 ^ k) := by
  refine ⟨_, rfl, base_after s _, ?_, ?_⟩
  · rw [Bytes.pad_eq_append, Array.length_toList]
    exact toList_after s _
  · rw [← Bytes.add_padding, ← List.length_replicate (n := Bytes.padding _ _) (a := (0 : UInt8))]
    exact size_after s _

end Stream

open Bytes in
/-- **All ways of aligning agree** on powers of two.  Masked bits, on numbers and on machine words,
give the least multiple that is not below a value.  A buffer is padded to just that length, by zeros
after its bytes.  In a stream that begins at a multiple, the offset that comes next becomes the
least multiple that is not below the one that came next before, if that has 32 bits.  A cursor moves
to the least multiple, or stays where it is if that is beyond the end.

The words are those for which the highest candidate is one.  For one value among them the sum of
value and alignment is not: it is `2 ^ 64`, which wraps to zero and back before the mask is taken,
and a build that checks sums panics there. -/
theorem alignments_agree (k : Nat) :
    (∀ v, IsLeast (multiplesFrom v (2 ^ k)) (alignUp v (2 ^ k))) ∧
    (∀ v n : UInt64, n.toNat = 2 ^ k → v.toNat + (n.toNat - 1) < 2 ^ 64 →
      (maskUp v n).toNat = alignUp v.toNat (2 ^ k)) ∧
    (∀ bytes, (pad bytes (2 ^ k)).length = alignUp bytes.length (2 ^ k) ∧
      pad bytes (2 ^ k) =
        bytes ++ List.replicate (alignUp bytes.length (2 ^ k) - bytes.length) 0) ∧
    (∀ s : Stream, 2 ^ k ∣ s.base.toNat → ∀ old, s.next = .ok old →
      ∃ t, Stream.align (2 ^ k) s = .ok () t ∧ t.base = s.base ∧
        t.data.toList = pad s.data.toList (2 ^ k) ∧
        (∀ new, t.next = .ok new ↔ IsLeast (multiplesFrom old.toNat (2 ^ k)) new.toNat) ∧
        ∀ n : UInt32, n.toNat = 2 ^ k → (t.isAligned n = true ↔ ∃ new, t.next = .ok new)) ∧
    ∀ c : Cursor, Cursor.align (2 ^ k) c =
      if alignUp c.position (2 ^ k) ≤ c.data.length then
        .ok () { c with position := alignUp c.position (2 ^ k) }
      else .error .outOfBounds c := by
  refine ⟨isLeast_alignUp k, fun v n hn h => hn ▸ toNat_maskUp hn h,
    fun bytes => ⟨length_pad bytes _, pad_eq_append bytes _⟩, ?_, Cursor.align_eq k⟩
  intro s hbase old hold
  obtain ⟨t, hrun, hb, hbytes, hsize⟩ := Stream.align_eq k s
  have hnext : ∀ new, t.next = .ok new ↔
      IsLeast (multiplesFrom old.toNat (2 ^ k)) new.toNat := by
    intro new
    have hleast := isLeast_alignUp k old.toNat
    rw [Stream.next_eq_ok_iff, hb, hsize, add_alignUp hbase, ← Stream.next_eq_ok hold]
    exact ⟨fun h => h ▸ hleast, fun h => h.unique hleast⟩
  refine ⟨t, hrun, hb, hbytes, hnext, fun n hn => ?_⟩
  rw [Stream.isAligned_iff, hn]
  refine exists_congr fun new => and_iff_left_of_imp fun h => ?_
  exact ((hnext new).mp h).1.2

open Bytes in
/-- A stream of five bytes that begins behind a header, and the largest word whose sum with the
alignment is a word. -/
theorem alignments_agree_four :
    let s : Stream := { base := 0x70, data := #[1, 2, 3, 4, 5] }
    ((0xFFFFFFFFFFFFFFFB : UInt64).toNat + ((4 : UInt64).toNat - 1) < 2 ^ 64 ∧
      (maskUp 0xFFFFFFFFFFFFFFFB 4).toNat = alignUp 0xFFFFFFFFFFFFFFFB 4) ∧
    2 ^ 2 ∣ s.base.toNat ∧ s.next = .ok 0x75 ∧
    ∃ t, Stream.align 4 s = .ok () t ∧ t.data.toList = [1, 2, 3, 4, 5, 0, 0, 0] ∧
      t.next = .ok 0x78 ∧ t.isAligned 4 = true := by
  intro s
  obtain ⟨hleast, hwords, -, hstreams, -⟩ := alignments_agree 2
  have hbase : 2 ^ 2 ∣ s.base.toNat := by decide
  have hold : s.next = .ok 0x75 := rfl
  obtain ⟨t, hrun, -, hbytes, hnext, haligned⟩ := hstreams s hbase _ hold
  have hpadded : pad s.data.toList (2 ^ 2) = [1, 2, 3, 4, 5, 0, 0, 0] := by decide
  have hnew : t.next = .ok 0x78 := (hnext 0x78).mpr (hleast 0x75)
  exact ⟨⟨by decide, hwords _ 4 rfl (by decide)⟩, hbase, hold, t, hrun,
    hbytes.trans hpadded, hnew, (haligned 4 rfl).mpr ⟨_, hnew⟩⟩

end Dalvik
