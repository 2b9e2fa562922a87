/-
# Fields at places of a buffer

Where a buffer is long enough, a field is read from a cursor whatever its bytes are, and it is
written over the bytes at an offset.  Fields that are written one after the other from the start of
a buffer replace the front of it, and what comes after them stays.

* `ofNat_toNat` and `encode_decode`: bytes are spelled by the number that they stand for;
* `answer_block_bind` and `answer_word_bind`: reading at a place;
* `overwrite_fronted` and `foldlM_put_fronted`: writing after a front.
-/
import Dalvik.Proofs.Bytes.Reading

namespace Dalvik

/-! ## 1. Bytes as numbers -/

/-- Bytes are those of their number. -/
theorem Bytes.ofNat_toNat (bytes : List UInt8) : ofNat bytes.length (toNat bytes) = bytes := by
  induction bytes with
  | nil => rfl
  | cons b rest ih =>
    have hb := b.toNat_lt
    have hlow : (b.toNat + 256 * toNat rest).toUInt8 = b := by
      rw [← UInt8.toNat_inj, Nat.toUInt8_eq, UInt8.toNat_ofNat']
      omega
    have hhigh : (b.toNat + 256 * toNat rest) / 256 = toNat rest := by omega
    rw [List.length_cons, ofNat, toNat, hlow, hhigh, ih]

theorem Bytes.toNat_lt (bytes : List UInt8) : toNat bytes < pow2 (8 * bytes.length) := by
  have h := toNat_ofNat bytes.length (toNat bytes)
  rw [ofNat_toNat] at h
  rw [h]
  exact Nat.mod_lt _ (pow2_pos _)

/-- **Four bytes** are those of the field that they hold. -/
theorem LittleEndian.encode_decode {bytes : List UInt8} (h : bytes.length = 4) :
    encode (decode bytes : UInt32) = bytes := by
  have hlt := Bytes.toNat_lt bytes
  rw [h] at hlt
  have hnumber : (Bytes.toNat bytes).toUInt32.toNat = Bytes.toNat bytes := by
    rw [Nat.toUInt32_eq, UInt32.toNat_ofNat_of_lt' hlt]
  change Bytes.ofNat 4 (Bytes.toNat bytes).toUInt32.toNat = bytes
  rw [hnumber, ← h, Bytes.ofNat_toNat]

/-! ## 2. Reading at a place -/

namespace Cursor

variable {α β : Type} {data : List UInt8} {pos : Nat}

theorem answer_pure (c : Cursor) (a : α) : c.answer (pure a) = .ok a :=
  rfl

/-- A check between two steps of reading. -/
theorem answer_lift_bind (c : Cursor) (x : Except Error α) (f : α → Reader β) :
    c.answer ((liftM x : Reader α) >>= f) = x >>= fun a => c.answer (f a) := by
  cases x <;> rfl

theorem answer_of_ok {r : Reader α} {c d : Cursor} {a : α} (h : r c = .ok a d)
    (f : α → Reader β) : c.answer (r >>= f) = d.answer (f a) := by
  rw [answer, answer, stateBind_of_ok h]

theorem block_of_le {count : Nat} (h : pos + count ≤ data.length) : block count ⟨data, pos⟩ =
    .ok (Vector.ofFn fun i => (data.drop pos).getD i 0) ⟨data, pos + count⟩ := by
  have hcopy : (Vector.ofFn fun i : Fin count => ((data.drop pos).take count).getD i 0) =
      Vector.ofFn fun i => (data.drop pos).getD i 0 := by
    congr 1
    funext i
    rw [List.getD_eq_getElem?_getD, List.getElem?_take_of_lt i.isLt, List.getD_eq_getElem?_getD]
  rw [← hcopy]
  exact stateBind_eq_ok.mpr ⟨_, _, bytes_of_le h, rfl⟩

/-- A block of bytes is read at its place. -/
theorem answer_block_bind {count : Nat} {f : Vector UInt8 count → Reader β}
    (h : pos + count ≤ data.length) : answer ⟨data, pos⟩ (block count >>= f) =
      answer ⟨data, pos + count⟩ (f (Vector.ofFn fun i => (data.drop pos).getD i 0)) :=
  answer_of_ok (block_of_le h) f

/-- A word is read at its place. -/
theorem answer_word_bind {f : UInt32 → Reader β} (h : pos + 4 ≤ data.length) :
    answer ⟨data, pos⟩ (field UInt32 >>= f) =
      answer ⟨data, pos + 4⟩ (f (LittleEndian.decode ((data.drop pos).take 4))) :=
  answer_of_ok (field_of_le h) f

end Cursor

/-! ## 3. Writing after a front -/

/-- The buffer with its first bytes replaced. -/
def fronted (front data : List UInt8) : List UInt8 :=
  front ++ data.drop front.length

section Writing

variable {front data : List UInt8}

theorem length_fronted (h : front.length ≤ data.length) :
    (fronted front data).length = data.length := by
  rw [fronted, List.length_append, List.length_drop]
  omega

/-- Bytes that are written after the front lengthen it. -/
theorem fronted_append (bytes : List UInt8) : (fronted front data).take front.length ++ bytes ++
    (fronted front data).drop (front.length + bytes.length) = fronted (front ++ bytes) data := by
  have hfront : (fronted front data).take front.length = front := List.take_left
  have hrest : (fronted front data).drop (front.length + bytes.length) =
      data.drop (front.length + bytes.length) := by
    rw [← List.drop_drop, fronted, List.drop_left, List.drop_drop]
  rw [hfront, hrest, fronted, List.length_append]

theorem overwrite_fronted {offset : Nat} (ho : front.length = offset) (bytes : List UInt8) :
    Bytes.overwrite offset bytes (fronted front data) = .ok () (fronted (front ++ bytes) data) := by
  rw [← fronted_append, ho]
  rfl

theorem put_fronted {α : Type} [LittleEndian α] {offset : Nat} (ho : front.length = offset) (a : α)
    (h : offset + LittleEndian.width α ≤ data.length) :
    LittleEndian.put offset a (fronted front data) =
      .ok (offset + LittleEndian.width α) (fronted (front ++ LittleEndian.encode a) data) := by
  have hfits : LittleEndian.width α + offset ≤ (fronted front data).length := by
    rw [length_fronted (by omega)]
    omega
  have hwrite : LittleEndian.writeAt (fronted front data) offset a =
      .ok (fronted (front ++ LittleEndian.encode a) data, offset + LittleEndian.width α) := by
    rw [LittleEndian.writeAt, if_pos hfits, ← fronted_append, ho, LittleEndian.length_encode]
  refine stateBind_eq_ok.mpr ⟨_, _, rfl, ?_⟩
  rw [hwrite]
  rfl

/-- **Fields** that are written one after the other lengthen the front by all of them. -/
theorem foldlM_put_fronted {α : Type} [LittleEndian α] {l : List α} {offset : Nat}
    (ho : front.length = offset)
    (h : offset + (l.flatMap LittleEndian.encode).length ≤ data.length) :
    ∃ stop, l.foldlM LittleEndian.put offset (fronted front data) =
      .ok stop (fronted (front ++ l.flatMap LittleEndian.encode) data) := by
  induction l generalizing front offset with
  | nil =>
    rw [List.flatMap_nil, List.append_nil]
    exact ⟨offset, rfl⟩
  | cons a rest ih =>
    rw [List.flatMap_cons, List.length_append, LittleEndian.length_encode] at h
    have hnext : (front ++ LittleEndian.encode a).length = offset + LittleEndian.width α := by
      rw [List.length_append, LittleEndian.length_encode, ho]
    obtain ⟨stop, hrest⟩ := ih hnext (by omega)
    rw [List.flatMap_cons, ← List.append_assoc, List.foldlM_cons]
    exact ⟨stop, stateBind_eq_ok.mpr ⟨_, _, put_fronted ho a (by omega), hrest⟩⟩

end Writing

end Dalvik
