/-
# Variable-length integers read

A reader of variable-length integers goes from byte to byte and joins the groups of bits, with five
bytes at most.  So there are three ways in which it can end: behind a whole group, at the end of the
input inside of one, or behind five bytes none of which ends a number.  A group is taken for the
number that it stands for, of which 32 bits are kept.

* `Passed` and `Refused` are these ends, and `passed_or_refused` says that there are no others;
* `encoded_reads_back`: what is written is read back, and nothing shorter is read as the same
  number;
* `read_exact_iff_fits`: what is read is the number of the group exactly if that has 32 bits.  Of a
  larger one in five bytes the bits above are dropped (`surplusBits_are_dropped`).
-/
import Dalvik.Bytes.Cursor
import Dalvik.Proofs.Bytes.Leb128
import Dalvik.Proofs.Outcome

namespace Dalvik

/-! ## 1. Steps of a cursor -/

namespace Cursor

variable {data after : List UInt8} {pos place count : Nat} {b : UInt8}

theorem seek_of_le (h : place ≤ data.length) :
    Cursor.seek place ⟨data, pos⟩ = .ok () ⟨data, place⟩ := by
  have hrun : Cursor.seek place ⟨data, pos⟩ = (if place ≤ data.length then
      set { data, position := place : Cursor } else throw .outOfBounds : Reader Unit)
        ⟨data, pos⟩ := rfl
  rw [hrun, if_pos h]
  rfl

theorem seek_of_lt (h : data.length < place) :
    Cursor.seek place ⟨data, pos⟩ = .error .outOfBounds ⟨data, pos⟩ := by
  have hrun : Cursor.seek place ⟨data, pos⟩ = (if place ≤ data.length then
      set { data, position := place : Cursor } else throw .outOfBounds : Reader Unit)
        ⟨data, pos⟩ := rfl
  rw [hrun, if_neg (Nat.not_le.mpr h)]
  rfl

theorem advance_of_le (h : pos + count ≤ data.length) :
    Cursor.advance count ⟨data, pos⟩ = .ok () ⟨data, pos + count⟩ :=
  seek_of_le h

theorem bytes_of_le (h : pos + count ≤ data.length) :
    bytes count ⟨data, pos⟩ = .ok ((data.drop pos).take count) ⟨data, pos + count⟩ :=
  stateBind_eq_ok.mpr ⟨_, _, rfl, stateBind_eq_ok.mpr ⟨_, _, advance_of_le h, rfl⟩⟩

theorem bytes_of_lt (h : data.length < pos + count) :
    bytes count ⟨data, pos⟩ = .error .outOfBounds ⟨data, pos⟩ :=
  stateBind_eq_error.mpr (.inr ⟨_, _, rfl, stateBind_eq_error.mpr (.inl (seek_of_lt h))⟩)

section Field

variable {α : Type} [LittleEndian α]

theorem field_of_le (h : pos + LittleEndian.width α ≤ data.length) : field α ⟨data, pos⟩ =
    .ok (LittleEndian.decode ((data.drop pos).take (LittleEndian.width α)))
      ⟨data, pos + LittleEndian.width α⟩ :=
  stateBind_eq_ok.mpr ⟨_, _, bytes_of_le h, rfl⟩

theorem field_of_lt (h : data.length < pos + LittleEndian.width α) :
    field α ⟨data, pos⟩ = .error .outOfBounds ⟨data, pos⟩ :=
  stateBind_eq_error.mpr (.inl (bytes_of_lt h))

end Field

theorem byte_of_drop (h : data.drop pos = b :: after) :
    field UInt8 ⟨data, pos⟩ = .ok b ⟨data, pos + 1⟩ := by
  have hlt : pos + 1 ≤ data.length := by
    have hlength := congrArg List.length h
    rw [List.length_drop, List.length_cons] at hlength
    omega
  have hb : LittleEndian.decode [b] = b := UInt8.ofNat_toNat
  have hfield := field_of_le (α := UInt8) hlt
  rw [h] at hfield
  exact hfield.trans (congrArg (EStateM.Result.ok · _) hb)

theorem byte_of_end (h : data.drop pos = []) :
    field UInt8 ⟨data, pos⟩ = .error .outOfBounds ⟨data, pos⟩ :=
  field_of_lt (Nat.lt_succ_of_le (List.drop_eq_nil_iff.mp h))

end Cursor

namespace Leb128

/-! ## 2. One more group -/

section Step

variable {α : Type} {form : String} {finish : UInt8 → UInt32 → UInt32 → α} {left pos : Nat}
  {data after front : List UInt8} {b : UInt8}

/-- **A byte** puts its group above those before it; reading ends behind it if no other follows. -/
theorem groups_succ (hd : data.drop pos = b :: after) (hroom : front.length < 5) :
    Cursor.groups form finish (left + 1) (UInt32.ofNat (7 * front.length))
        (UInt32.ofNat (number front)) ⟨data, pos⟩ =
      (if continues b then
        Cursor.groups form finish left (UInt32.ofNat (7 * (front ++ [b]).length))
          (UInt32.ofNat (number (front ++ [b])))
      else
        return finish b (UInt32.ofNat (7 * (front ++ [b]).length))
          (UInt32.ofNat (number (front ++ [b]))) : Reader α) ⟨data, pos + 1⟩ := by
  have hshift : UInt32.ofNat (7 * front.length) + 7 =
      UInt32.ofNat (7 * (front ++ [b]).length) := by
    rw [List.length_append, List.length_singleton, Nat.mul_succ, UInt32.ofNat_add]
    rfl
  rw [← hshift, ← join_group hroom]
  exact stateBind_of_ok (Cursor.byte_of_drop hd) _

end Step

/-! ## 3. Ends -/

/-- The cursor `d` is behind the group of bytes that stands at `c`. -/
structure Passed (c : Cursor) (bytes : List UInt8) (d : Cursor) : Prop where
  group : IsGroup bytes
  length_le : bytes.length ≤ 5
  front : ∃ after, bytes ++ after = c.rest
  moved : d = { c with position := c.position + bytes.length }

/-- Why there is no variable-length integer at a cursor, and where its reader stops. -/
inductive Refused (form : String) (c : Cursor) : Error → Cursor → Prop
  /-- The input ends before any byte ends the number. -/
  | unfinished (h : c.rest.length < 5) (open_ : ∀ b ∈ c.rest, continues b = true) :
    Refused form c .outOfBounds { c with position := c.position + c.rest.length }
  /-- No byte of five ends the number. -/
  | overlong (h : 5 ≤ c.rest.length) (open_ : ∀ b ∈ c.rest.take 5, continues b = true) :
    Refused form c (Cursor.overlong form c.position) { c with position := c.position + 5 }

/-- What the first bytes of an input are: a group, or bytes of which none ends a number. -/
theorem front_cases (left : Nat) (tail : List UInt8) :
    (∃ bytes after, bytes ++ after = tail ∧ IsGroup bytes ∧ bytes.length ≤ left) ∨
      ∀ b ∈ tail.take left, continues b = true := by
  induction left generalizing tail with
  | zero => exact .inr (by simp)
  | succ left ih =>
    cases tail with
    | nil => exact .inr (by simp)
    | cons b tail =>
      cases hb : continues b with
      | false =>
        refine .inl ⟨[b], tail, rfl, .last hb, ?_⟩
        rw [List.length_singleton]
        exact Nat.le_add_left 1 left
      | true =>
        rcases ih tail with ⟨bytes, after, rfl, hgroup, hlength⟩ | hopen
        · exact .inl ⟨b :: bytes, after, rfl, .more hb hgroup, Nat.succ_le_succ hlength⟩
        · rw [List.take_succ_cons]
          exact .inr (List.forall_mem_cons.mpr ⟨hb, hopen⟩)

/-- **There is no other end**: a group of at most five bytes stands at the cursor, or none does. -/
theorem passed_or_refused (form : String) (c : Cursor) :
    (∃ bytes d, Passed c bytes d) ∨ ∃ e d, Refused form c e d := by
  rcases front_cases 5 c.rest with ⟨bytes, after, hfront, hgroup, hlength⟩ | hopen
  · exact .inl ⟨bytes, _, hgroup, hlength, ⟨after, hfront⟩, rfl⟩
  · rcases Nat.lt_or_ge c.rest.length 5 with hshort | hlong
    · rw [List.take_of_length_le (Nat.le_of_lt hshort)] at hopen
      exact .inr ⟨_, _, .unfinished hshort hopen⟩
    · exact .inr ⟨_, _, .overlong hlong hopen⟩

/-! ## 4. Runs -/

section Runs

variable {α : Type} {form : String} {finish : UInt8 → UInt32 → UInt32 → α} {left pos : Nat}
  {data after bytes : List UInt8}

theorem drop_succ_of_cons {b : UInt8} (h : data.drop pos = b :: after) :
    data.drop (pos + 1) = after := by
  rw [← List.drop_drop, h]
  rfl

/-- **A group is read** to its end, and put above the groups that have been read. -/
theorem groups_of_isGroup (front : List UInt8) (hg : IsGroup bytes)
    (hd : data.drop pos = bytes ++ after) (hleft : bytes.length ≤ left)
    (hroom : front.length + left = 5) :
    Cursor.groups form finish left (UInt32.ofNat (7 * front.length)) (UInt32.ofNat (number front))
        ⟨data, pos⟩ =
      .ok (finish (bytes.getLastD 0) (UInt32.ofNat (7 * (front ++ bytes).length))
        (UInt32.ofNat (number (front ++ bytes)))) ⟨data, pos + bytes.length⟩ := by
  induction left generalizing front bytes pos with
  | zero => exact absurd hg.length_pos (Nat.not_lt.mpr hleft)
  | succ left ih =>
    cases hg with
    | @last b hb =>
      rw [groups_succ hd (by omega), hb]
      rfl
    | @more b bytes hb hs =>
      have hlast : (b :: bytes).getLastD 0 = bytes.getLastD 0 := by
        cases hs <;> rfl
      have hnext : (front ++ [b]).length + left = 5 := by
        rw [List.length_append, List.length_singleton]
        omega
      rw [groups_succ hd (by omega), hb, if_pos rfl,
        ih (front ++ [b]) hs (drop_succ_of_cons hd) (Nat.le_of_succ_le_succ hleft) hnext, hlast,
        List.append_assoc, List.singleton_append, List.length_cons, Nat.add_assoc,
        Nat.add_comm 1]

/-- **Without a byte that ends the number** reading stops at the end of the input, or behind five
bytes. -/
theorem groups_of_open (front : List UInt8)
    (hopen : ∀ b ∈ (data.drop pos).take left, continues b = true)
    (hroom : front.length + left = 5) :
    Cursor.groups form finish left (UInt32.ofNat (7 * front.length)) (UInt32.ofNat (number front))
        ⟨data, pos⟩ =
      if (data.drop pos).length < left then
        .error .outOfBounds ⟨data, pos + (data.drop pos).length⟩
      else .error (Cursor.overlong form (pos + left - 5)) ⟨data, pos + left⟩ := by
  induction left generalizing front pos with
  | zero => rfl
  | succ left ih =>
    cases hd : data.drop pos with
    | nil => exact stateBind_eq_error.mpr (.inl (Cursor.byte_of_end hd))
    | cons b after =>
      rw [hd, List.take_succ_cons] at hopen
      obtain ⟨hb, hopen⟩ := List.forall_mem_cons.mp hopen
      have hafter := drop_succ_of_cons hd
      have hnext : (front ++ [b]).length + left = 5 := by
        rw [List.length_append, List.length_singleton]
        omega
      rw [← hafter] at hopen
      rw [groups_succ hd (by omega), hb, if_pos rfl, ih (front ++ [b]) hopen hnext, hafter]
      simp only [List.length_cons, Nat.add_lt_add_iff_right, Nat.add_assoc, Nat.add_comm 1]

end Runs

section Ends

variable {c d : Cursor} {bytes : List UInt8} {e : Error}

/-- **A group is read** as the unsigned number that it stands for, as far as 32 bits go. -/
theorem Passed.uleb128 (h : Passed c bytes d) :
    Cursor.uleb128 c = .ok (UInt32.ofNat (number bytes)) d := by
  obtain ⟨after, hfront⟩ := h.front
  rw [h.moved]
  exact groups_of_isGroup [] h.group hfront.symm h.length_le rfl

/-- **A group is read** as the signed number that it stands for, as far as 32 bits go. -/
theorem Passed.sleb128 (h : Passed c bytes d) :
    Cursor.sleb128 c = .ok (Int32.ofInt (signedNumber bytes)) d := by
  obtain ⟨after, hfront⟩ := h.front
  have hrun : Cursor.sleb128 c = .ok (signExtended (bytes.getLastD 0)
      (UInt32.ofNat (7 * bytes.length)) (UInt32.ofNat (number bytes))) d := by
    rw [h.moved]
    exact groups_of_isGroup [] h.group hfront.symm h.length_le rfl
  obtain rfl | ⟨front, last, rfl⟩ := List.eq_nil_or_concat bytes
  · exact absurd h.group.length_pos (Nat.lt_irrefl 0)
  · have hlength := h.length_le
    rw [List.concat_eq_append] at hrun hlength ⊢
    rw [List.length_append, List.length_singleton] at hlength
    have hlast : (front ++ [last]).getLastD 0 = last := by simp
    rw [hrun, hlast, signExtended_eq (by omega)]

theorem Refused.groups {α : Type} {form : String} {finish : UInt8 → UInt32 → UInt32 → α}
    (h : Refused form c e d) : Cursor.groups form finish 5 0 0 c = .error e d := by
  cases h with
  | unfinished hshort hopen =>
    have htake : c.rest.take 5 = c.rest := List.take_of_length_le (Nat.le_of_lt hshort)
    exact (groups_of_open [] (fun b hb => hopen b (htake ▸ hb)) rfl).trans (if_pos hshort)
  | overlong hlong hopen =>
    exact (groups_of_open [] hopen rfl).trans (if_neg (Nat.not_lt.mpr hlong))

/-- A reader that answers the value of the group at the cursor, and fails where there is none. -/
structure ReadsGroups {α : Type} (form : String) (x : Reader α) (value : List UInt8 → α) :
    Prop where
  passed : ∀ {c d bytes}, Passed c bytes d → x c = .ok (value bytes) d
  refused : ∀ {c d e}, Refused form c e d → x c = .error e d

theorem readsGroups_uleb128 : ReadsGroups "uleb128" Cursor.uleb128 fun bytes =>
    UInt32.ofNat (number bytes) :=
  ⟨Passed.uleb128, Refused.groups⟩

theorem readsGroups_sleb128 : ReadsGroups "sleb128" Cursor.sleb128 fun bytes =>
    Int32.ofInt (signedNumber bytes) :=
  ⟨Passed.sleb128, Refused.groups⟩

variable {α : Type} {form : String} {x : Reader α} {value : List UInt8 → α}

theorem ReadsGroups.eq_ok (hx : ReadsGroups form x value) {v : α} (h : x c = .ok v d) :
    ∃ bytes, Passed c bytes d ∧ v = value bytes := by
  obtain ⟨bytes, d', hp⟩ | ⟨e, d', hr⟩ := passed_or_refused form c
  · cases (hx.passed hp).symm.trans h
    exact ⟨bytes, hp, rfl⟩
  · cases (hx.refused hr).symm.trans h

theorem ReadsGroups.eq_error_iff (hx : ReadsGroups form x value) :
    x c = .error e d ↔ Refused form c e d := by
  refine ⟨fun h => ?_, hx.refused⟩
  obtain ⟨bytes, d', hp⟩ | ⟨e', d', hr⟩ := passed_or_refused form c
  · cases (hx.passed hp).symm.trans h
  · cases (hx.refused hr).symm.trans h
    exact hr

end Ends

/-! ## 5. Reading back -/

section Written

variable {c : Cursor} {after : List UInt8}

/-- **An unsigned number that has been written** is read where it stands. -/
theorem uleb128_of_encoded {v : UInt32} (h : c.rest = encodeUnsigned v ++ after) :
    Cursor.uleb128 c = .ok v { c with position := c.position + (encodeUnsigned v).length } := by
  have hp : Passed c (encodeUnsigned v)
      { c with position := c.position + (encodeUnsigned v).length } :=
    ⟨isGroup_encodeUnsigned v, length_encodeUnsigned_le v, ⟨after, h.symm⟩, rfl⟩
  rw [hp.uleb128, number_encodeUnsigned, UInt32.ofNat_toNat]

/-- **A signed number that has been written** is read where it stands. -/
theorem sleb128_of_encoded {v : Int32} (h : c.rest = encodeSigned v ++ after) :
    Cursor.sleb128 c = .ok v { c with position := c.position + (encodeSigned v).length } := by
  have hp : Passed c (encodeSigned v)
      { c with position := c.position + (encodeSigned v).length } :=
    ⟨isGroup_encodeSigned v, length_encodeSigned_le v, ⟨after, h.symm⟩, rfl⟩
  rw [hp.sleb128, signedNumber_encodeSigned, Int32.ofInt_toInt]

theorem rest_append (before bytes after : List UInt8) :
    Cursor.rest ⟨before ++ bytes ++ after, before.length⟩ = bytes ++ after := by
  rw [Cursor.rest, List.append_assoc, List.drop_left]

end Written

/-- **No group is shorter** than what is written, if it is read as the same unsigned number. -/
theorem length_encodeUnsigned_le_of_eq {v : UInt32} {bytes : List UInt8} (hpos : 0 < bytes.length)
    (hv : v = UInt32.ofNat (number bytes)) : (encodeUnsigned v).length ≤ bytes.length := by
  rcases Nat.lt_or_ge bytes.length 5 with hshort | hlong
  · obtain ⟨k, hk⟩ := Nat.exists_eq_add_of_lt hpos
    rw [Nat.zero_add] at hk
    have hlt := number_lt bytes
    rw [hk, length_encodeUnsigned_le_iff, hv, UInt32.toNat_ofNat']
    rw [hk] at hlt
    exact Nat.lt_of_le_of_lt (Nat.mod_le ..) hlt
  · exact Nat.le_trans (length_encodeUnsigned_le v) hlong

/-- **No group is shorter** than what is written, if it is read as the same signed number. -/
theorem length_encodeSigned_le_of_eq {v : Int32} {bytes : List UInt8} (hpos : 0 < bytes.length)
    (hv : v = Int32.ofInt (signedNumber bytes)) : (encodeSigned v).length ≤ bytes.length := by
  rcases Nat.lt_or_ge bytes.length 5 with hshort | hlong
  · obtain ⟨k, hk⟩ := Nat.exists_eq_add_of_lt hpos
    rw [Nat.zero_add] at hk
    obtain ⟨hlow, hhigh⟩ := signedNumber_range hk
    have hweight : (128 : Int) ^ k ≤ 128 ^ 3 := by
      exact_mod_cast Nat.pow_le_pow_right (n := 128) (by decide) (by omega)
    have hkept : (signedNumber bytes).bmod Int32.size = signedNumber bytes :=
      Int.bmod_eq_of_le (by simp only [Int32.size]; omega) (by simp only [Int32.size]; omega)
    rw [hk, length_encodeSigned_le_iff, hv, Int32.toInt_ofInt, hkept]
    exact ⟨hlow, hhigh⟩
  · exact Nat.le_trans (length_encodeSigned_le v) hlong

/-- **What is written is read back**, whatever is before and after it, up to its end; it has at most
five bytes, an unsigned number as many as its size says, and nothing with fewer bytes is read as the
same number anywhere. -/
theorem encoded_reads_back (v : UInt32) (w : Int32) (before after : List UInt8) :
    Cursor.uleb128 ⟨before ++ encodeUnsigned v ++ after, before.length⟩ =
      .ok v ⟨before ++ encodeUnsigned v ++ after, before.length + (encodeUnsigned v).length⟩ ∧
    Cursor.sleb128 ⟨before ++ encodeSigned w ++ after, before.length⟩ =
      .ok w ⟨before ++ encodeSigned w ++ after, before.length + (encodeSigned w).length⟩ ∧
    (encodeUnsigned v).length = unsignedSize v ∧
    (encodeUnsigned v).length ≤ 5 ∧ (encodeSigned w).length ≤ 5 ∧
    (∀ c d, Cursor.uleb128 c = .ok v d →
      c.position + (encodeUnsigned v).length ≤ d.position) ∧
    ∀ c d, Cursor.sleb128 c = .ok w d → c.position + (encodeSigned w).length ≤ d.position := by
  refine ⟨uleb128_of_encoded (rest_append before _ after),
    sleb128_of_encoded (rest_append before _ after), length_encodeUnsigned v,
    length_encodeUnsigned_le v, length_encodeSigned_le w, fun c d h => ?_, fun c d h => ?_⟩
  · obtain ⟨bytes, hp, hv⟩ := readsGroups_uleb128.eq_ok h
    rw [hp.moved]
    exact Nat.add_le_add_left (length_encodeUnsigned_le_of_eq hp.group.length_pos hv) _
  · obtain ⟨bytes, hp, hw⟩ := readsGroups_sleb128.eq_ok h
    rw [hp.moved]
    exact Nat.add_le_add_left (length_encodeSigned_le_of_eq hp.group.length_pos hw) _

/-- Two numbers next to the end of seven bits, read from more bytes than they need. -/
theorem encoded_reads_back_padded :
    let c : Cursor := ⟨[7, 0xFF, 0x80, 0x00], 1⟩
    let d : Cursor := ⟨[7, 0xBF, 0xFF, 0x7F], 1⟩
    (Cursor.uleb128 c = .ok 127 { c with position := 4 } ∧ (encodeUnsigned 127).length ≤ 3) ∧
    Cursor.sleb128 d = .ok (-65) { d with position := 4 } ∧ (encodeSigned (-65)).length ≤ 3 := by
  intro c d
  have hc : Passed c [0xFF, 0x80, 0x00] { c with position := 4 } :=
    ⟨.more rfl (.more rfl (.last rfl)), by decide, ⟨[], rfl⟩, rfl⟩
  have hd : Passed d [0xBF, 0xFF, 0x7F] { d with position := 4 } :=
    ⟨.more rfl (.more rfl (.last rfl)), by decide, ⟨[], rfl⟩, rfl⟩
  have hv : UInt32.ofNat (number [0xFF, 0x80, 0x00]) = 127 := by decide
  have hw : Int32.ofInt (signedNumber [0xBF, 0xFF, 0x7F]) = -65 := by decide
  have hunsigned := hv ▸ hc.uleb128
  have hsigned := hw ▸ hd.sleb128
  obtain ⟨-, -, -, -, -, hsize, hsize'⟩ := encoded_reads_back 127 (-65) [] []
  exact ⟨⟨hunsigned, Nat.le_of_add_le_add_left (hsize _ _ hunsigned)⟩, hsigned,
    Nat.le_of_add_le_add_left (hsize' _ _ hsigned)⟩

/-! ## 6. What is read -/

theorem toNat_eq_number_iff {v : UInt32} {n : Nat} (h : v = UInt32.ofNat n) :
    v.toNat = n % 2 ^ 32 ∧ (v.toNat = n ↔ n < 2 ^ 32) := by
  rw [h, UInt32.toNat_ofNat']
  exact ⟨rfl, Nat.mod_eq_iff_lt (by decide)⟩

theorem toInt_eq_number_iff {v : Int32} {n : Int} (h : v = Int32.ofInt n) :
    v.toInt = n.bmod (2 ^ 32) ∧ (v.toInt = n ↔ -2 ^ 31 ≤ n ∧ n < 2 ^ 31) := by
  have hv : v.toInt = n.bmod (2 ^ 32) := by
    rw [h]
    exact Int32.toInt_ofInt
  refine ⟨hv, ?_⟩
  rw [hv, Int.bmod_eq_iff (by decide)]
  constructor
  · rintro ⟨hlow, hhigh, -⟩
    omega
  · rintro ⟨hlow, hhigh⟩
    refine ⟨by omega, by omega, ?_⟩
    rw [Int.sub_self]
    exact Int.dvd_zero _

/-- **What is read.**  A number is read from a whole group of at most five bytes, and its reader
stops behind them; it is the number that the group stands for, but for bits above the 32nd, which
are dropped.  So it is exact if and only if the number has 32 bits.  There is no number, and the
reader says why, exactly if the input ends inside the group or five bytes are not enough for it. -/
theorem read_exact_iff_fits (c : Cursor) :
    (∀ v d, Cursor.uleb128 c = .ok v d → ∃ bytes, Passed c bytes d ∧
      v.toNat = number bytes % 2 ^ 32 ∧ (v.toNat = number bytes ↔ number bytes < 2 ^ 32)) ∧
    (∀ v d, Cursor.sleb128 c = .ok v d → ∃ bytes, Passed c bytes d ∧
      v.toInt = (signedNumber bytes).bmod (2 ^ 32) ∧
      (v.toInt = signedNumber bytes ↔
        -2 ^ 31 ≤ signedNumber bytes ∧ signedNumber bytes < 2 ^ 31)) ∧
    (∀ e d, Cursor.uleb128 c = .error e d ↔ Refused "uleb128" c e d) ∧
    ∀ e d, Cursor.sleb128 c = .error e d ↔ Refused "sleb128" c e d := by
  refine ⟨fun v d h => ?_, fun v d h => ?_, fun _ _ => readsGroups_uleb128.eq_error_iff,
    fun _ _ => readsGroups_sleb128.eq_error_iff⟩
  · obtain ⟨bytes, hp, hv⟩ := readsGroups_uleb128.eq_ok h
    exact ⟨bytes, hp, toNat_eq_number_iff hv⟩
  · obtain ⟨bytes, hp, hv⟩ := readsGroups_sleb128.eq_ok h
    exact ⟨bytes, hp, toInt_eq_number_iff hv⟩

/-- A group whose fifth byte has a bit beyond the 32nd. -/
theorem uleb128_surplus : Cursor.uleb128 ⟨[0x80, 0x80, 0x80, 0x80, 0x10], 0⟩ =
    .ok 0 ⟨[0x80, 0x80, 0x80, 0x80, 0x10], 5⟩ := by
  have h : Passed ⟨[0x80, 0x80, 0x80, 0x80, 0x10], 0⟩ [0x80, 0x80, 0x80, 0x80, 0x10]
      ⟨[0x80, 0x80, 0x80, 0x80, 0x10], 5⟩ :=
    ⟨.more rfl (.more rfl (.more rfl (.more rfl (.last rfl)))), by decide, ⟨[], rfl⟩, rfl⟩
  have hv : UInt32.ofNat (number [0x80, 0x80, 0x80, 0x80, 0x10]) = 0 := by decide
  exact hv ▸ h.uleb128

/-- A group that spells 32 ones and no sign. -/
theorem passed_ones :
    Passed ⟨[0xFF, 0xFF, 0xFF, 0xFF, 0x0F], 0⟩ [0xFF, 0xFF, 0xFF, 0xFF, 0x0F]
      ⟨[0xFF, 0xFF, 0xFF, 0xFF, 0x0F], 5⟩ :=
  ⟨.more rfl (.more rfl (.more rfl (.more rfl (.last rfl)))), by decide, ⟨[], rfl⟩, rfl⟩

theorem uleb128_ones : Cursor.uleb128 ⟨[0xFF, 0xFF, 0xFF, 0xFF, 0x0F], 0⟩ =
    .ok 0xFFFFFFFF ⟨[0xFF, 0xFF, 0xFF, 0xFF, 0x0F], 5⟩ := by
  have hv : UInt32.ofNat (number [0xFF, 0xFF, 0xFF, 0xFF, 0x0F]) = 0xFFFFFFFF := by decide
  exact hv ▸ passed_ones.uleb128

theorem sleb128_ones : Cursor.sleb128 ⟨[0xFF, 0xFF, 0xFF, 0xFF, 0x0F], 0⟩ =
    .ok (-1) ⟨[0xFF, 0xFF, 0xFF, 0xFF, 0x0F], 5⟩ := by
  have hv : Int32.ofInt (signedNumber [0xFF, 0xFF, 0xFF, 0xFF, 0x0F]) = -1 := by decide
  exact hv ▸ passed_ones.sleb128

/-- The same five bytes, exact as an unsigned number and inexact as a signed one. -/
theorem read_exact_iff_fits_ones :
    let c : Cursor := ⟨[0xFF, 0xFF, 0xFF, 0xFF, 0x0F], 0⟩
    let d : Cursor := { c with position := 5 }
    (Cursor.uleb128 c = .ok 0xFFFFFFFF d ∧ ∃ bytes, Passed c bytes d ∧
      (4294967295 = number bytes ↔ number bytes < 2 ^ 32)) ∧
    Cursor.sleb128 c = .ok (-1) d ∧ ∃ bytes, Passed c bytes d ∧
      (-1 = signedNumber bytes ↔ -2 ^ 31 ≤ signedNumber bytes ∧ signedNumber bytes < 2 ^ 31) := by
  intro c d
  obtain ⟨hunsigned, hsigned, -⟩ := read_exact_iff_fits c
  obtain ⟨bytes, hp, -, hexact⟩ := hunsigned _ _ uleb128_ones
  obtain ⟨bytes', hp', -, hexact'⟩ := hsigned _ _ sleb128_ones
  exact ⟨⟨uleb128_ones, bytes, hp, hexact⟩, sleb128_ones, bytes', hp', hexact'⟩

/-- **Bits beyond the 32nd are dropped.**  Five bytes that stand for `2 ^ 32` are read as zero, and
others that stand for `2 ^ 32 - 1`, with their sign, as `-1`. -/
theorem surplusBits_are_dropped :
    (Cursor.uleb128 ⟨[0x80, 0x80, 0x80, 0x80, 0x10], 0⟩ =
        .ok 0 ⟨[0x80, 0x80, 0x80, 0x80, 0x10], 5⟩ ∧
      number [0x80, 0x80, 0x80, 0x80, 0x10] = 2 ^ 32) ∧
    Cursor.sleb128 ⟨[0xFF, 0xFF, 0xFF, 0xFF, 0x0F], 0⟩ =
        .ok (-1) ⟨[0xFF, 0xFF, 0xFF, 0xFF, 0x0F], 5⟩ ∧
      signedNumber [0xFF, 0xFF, 0xFF, 0xFF, 0x0F] = 2 ^ 32 - 1 :=
  ⟨⟨uleb128_surplus, by decide⟩, sleb128_ones, by decide⟩

end Leb128

end Dalvik
