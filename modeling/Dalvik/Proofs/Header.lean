/-
# The header written and read back

A header is written field by field over the front of a buffer, the words from one list, and read
field by field into a record.  Both keep to the places of the fields: written, the header is the
front of the buffer, and nothing behind it changes; read, each field is what stands at its place.
Every byte of the front belongs to a field, so each header has one form, and each front one header.

Sealing replaces two fields, and nothing else of the container.

* `put_eq`: writing replaces the front;
* `read_eq`: reading takes the fields from their places and checks three of them;
* `fields_encode` and `encode_fields`: headers and fronts correspond;
* `put_and_read`: writing and reading undo each other;
* `storeDigests_eq` and `sealedWith_encode`: what sealing stores, in any buffer and after a header.
-/
import Dalvik.Header
import Dalvik.Proofs.Bytes.Places

namespace Dalvik

/-! ## 1. Fields in data -/

section Fields

variable {data : List UInt8} {pos : Nat}

theorem decode_of_stands {α : Type} [LittleEndian α] {a : α}
    (h : Stands data pos (LittleEndian.encode a)) :
    LittleEndian.decode ((data.drop pos).take (LittleEndian.width α)) = a := by
  obtain ⟨after, hd⟩ := h.drop
  rw [hd, List.take_left' (LittleEndian.length_encode a), LittleEndian.decode_encode]

/-- Of fields of one type, each is as many widths from the start as there are fields before it. -/
theorem Stands.flatMap_encode {α : Type} [LittleEndian α] {l : List α}
    (h : Stands data pos (l.flatMap LittleEndian.encode)) {place : Nat} {a : α}
    (ha : l[place]? = some a) :
    Stands data (pos + LittleEndian.width α * place) (LittleEndian.encode a) := by
  induction l generalizing pos place with
  | nil => cases ha
  | cons first rest ih =>
    rw [List.flatMap_cons] at h
    cases place with
    | zero =>
      cases ha
      exact h.left
    | succ place =>
      rw [List.getElem?_cons_succ] at ha
      have hrest := ih h.right ha
      rwa [LittleEndian.length_encode, Nat.add_assoc, Nat.add_comm (LittleEndian.width α),
        ← Nat.mul_succ] at hrest

end Fields

namespace Header

theorem bytesAt_of_stands {data : List UInt8} {offset count : Nat} {v : Vector UInt8 count}
    (h : Stands data offset v.toList) : bytesAt data offset count = v := by
  obtain ⟨after, hd⟩ := h.drop
  refine Vector.ext fun i hi => ?_
  have hlt : i < v.toList.length := by rwa [Vector.length_toList]
  rw [bytesAt, Vector.getElem_ofFn, hd, List.getD_eq_getElem?_getD, List.getElem?_append_left hlt,
    List.getElem?_eq_getElem hlt, Option.getD_some, Vector.getElem_toList]

theorem wordAt_of_stands {data : List UInt8} {place : Nat} {word : UInt32} {words : List UInt32}
    (h : Stands data wordsAt (words.flatMap LittleEndian.encode))
    (hw : words[place]? = some word) : wordAt data place = word :=
  decode_of_stands (h.flatMap_encode hw)

/-! ## 2. The front of a container -/

/-- The bytes of a header. -/
def encode (h : Header) : List UInt8 :=
  h.magic.toList ++ LittleEndian.encode h.checksum ++ h.signature.toList ++
    h.words.flatMap LittleEndian.encode

section Encode

variable (h : Header) (rest : List UInt8)

theorem encode_eq : h.encode = h.magic.toList ++ (LittleEndian.encode h.checksum ++
    (h.signature.toList ++ h.words.flatMap LittleEndian.encode)) := by
  rw [encode, List.append_assoc, List.append_assoc]

theorem stands_magic : Stands (h.encode ++ rest) 0 h.magic.toList := by
  rw [encode_eq, List.append_assoc]
  exact .start _ _

theorem stands_afterMagic : Stands (h.encode ++ rest) checksumAt
    (LittleEndian.encode h.checksum ++
      (h.signature.toList ++ h.words.flatMap LittleEndian.encode)) := by
  have hall := Stands.start h.encode rest
  rw [encode_eq] at hall ⊢
  have hright := hall.right
  rwa [Vector.length_toList] at hright

theorem stands_afterChecksum : Stands (h.encode ++ rest) signatureAt
    (h.signature.toList ++ h.words.flatMap LittleEndian.encode) := by
  have hright := (stands_afterMagic h rest).right
  rwa [LittleEndian.length_encode] at hright

theorem stands_words :
    Stands (h.encode ++ rest) wordsAt (h.words.flatMap LittleEndian.encode) := by
  have hright := (stands_afterChecksum h rest).right
  rwa [Vector.length_toList] at hright

/-- **The fields** of the bytes of a header are those of the header. -/
theorem fields_encode : fields (h.encode ++ rest) = h := by
  have hsum : LittleEndian.decode (((h.encode ++ rest).drop checksumAt).take 4) = h.checksum :=
    decode_of_stands (stands_afterMagic h rest).left
  have hword : ∀ place word, h.words[place]? = some word →
      wordAt (h.encode ++ rest) place = word :=
    fun _ _ => wordAt_of_stands (stands_words h rest)
  rw [fields, bytesAt_of_stands (stands_magic h rest), hsum,
    bytesAt_of_stands (stands_afterChecksum h rest).left, hword 0 _ rfl, hword 1 _ rfl,
    hword 2 _ rfl, hword 3 _ rfl, hword 4 _ rfl, hword 5 _ rfl, hword 6 _ rfl, hword 7 _ rfl,
    hword 8 _ rfl, hword 9 _ rfl, hword 10 _ rfl, hword 11 _ rfl, hword 12 _ rfl, hword 13 _ rfl,
    hword 14 _ rfl, hword 15 _ rfl, hword 16 _ rfl, hword 17 _ rfl, hword 18 _ rfl, hword 19 _ rfl]

theorem length_words : (h.words.flatMap LittleEndian.encode).length = 80 := by
  have hword : LittleEndian.width UInt32 = 4 := rfl
  simp [words, hword]

theorem length_encode : h.encode.length = size := by
  rw [encode_eq, List.length_append, List.length_append, List.length_append, length_words,
    LittleEndian.length_encode, Vector.length_toList, Vector.length_toList]
  rfl

end Encode

/-! ## 3. The fields of a front -/

section Places

variable {data : List UInt8}

theorem toList_bytesAt {offset count : Nat} (h : offset + count ≤ data.length) :
    (bytesAt data offset count).toList = (data.drop offset).take count := by
  refine List.ext_getElem ?_ fun i hi hi' => ?_
  · rw [Vector.length_toList, List.length_take, List.length_drop]
    omega
  · have hlt : i < (data.drop offset).length := by
      rw [List.length_take] at hi'
      omega
    have hcount : i < count := by rwa [Vector.length_toList] at hi
    have hentry : (bytesAt data offset count)[i] = (data.drop offset).getD i 0 := by
      rw [bytesAt, Vector.getElem_ofFn]
    rw [Vector.getElem_toList, hentry, List.getElem_take, List.getD_eq_getElem?_getD,
      List.getElem?_eq_getElem hlt, Option.getD_some]

/-- The words from the first place on are all the bytes there. -/
theorem flatMap_wordAt {count : Nat} (h : wordsAt + 4 * count ≤ data.length) :
    ((List.range count).map (wordAt data)).flatMap LittleEndian.encode =
      (data.drop wordsAt).take (4 * count) := by
  induction count with
  | zero => rfl
  | succ count ih =>
    have hlength : ((data.drop (wordsAt + 4 * count)).take 4).length = 4 := by
      rw [List.length_take, List.length_drop]
      omega
    have hlast : LittleEndian.encode (wordAt data count) =
        ((data.drop wordsAt).drop (4 * count)).take 4 := by
      rw [wordAt, LittleEndian.encode_decode hlength, List.drop_drop]
    rw [List.range_succ, List.map_append, List.flatMap_append, ih (by omega), List.map_singleton,
      List.flatMap_singleton, hlast, ← List.take_add, Nat.mul_succ]

/-- **Every byte** of the front belongs to a field. -/
theorem encode_fields (h : size ≤ data.length) : (fields data).encode = data.take size := by
  have h : 0x70 ≤ data.length := h
  have hlist : (fields data).words = (List.range 20).map (wordAt data) := rfl
  have hmagic : (fields data).magic.toList = data.take 8 := toList_bytesAt (by omega)
  have hsum : LittleEndian.encode (fields data).checksum = (data.drop 8).take 4 := by
    refine LittleEndian.encode_decode ?_
    rw [List.length_take, List.length_drop, checksumAt]
    omega
  have hsign : (fields data).signature.toList = (data.drop 12).take 20 :=
    toList_bytesAt (by rw [signatureAt]; omega)
  have hwords : (fields data).words.flatMap LittleEndian.encode = (data.drop 32).take 80 :=
    hlist ▸ flatMap_wordAt (by rw [wordsAt]; omega)
  have hsplit : data.take size = data.take 8 ++
      ((data.drop 8).take 4 ++ ((data.drop 12).take 20 ++ (data.drop 32).take 80)) := by
    rw [show size = 8 + (4 + (20 + 80)) from rfl, List.take_add, List.take_add, List.take_add,
      List.drop_drop, List.drop_drop]
  rw [encode_eq, hmagic, hsum, hsign, hwords, hsplit]

end Places

/-! ## 4. Writing -/

/-- **Writing** replaces the front of the buffer, if there is room for a header. -/
theorem put_eq (h : Header) (data : List UInt8) : h.put data =
    if data.length < size then .error .outOfBounds data
    else .ok () (h.encode ++ data.drop size) := by
  split
  case isTrue hshort =>
    refine stateBind_eq_error.mpr (.inr ⟨data, data, rfl, ?_⟩)
    rw [if_pos hshort]
    rfl
  case isFalse hlong =>
    have hroom : 0x70 ≤ data.length := Nat.not_lt.mp hlong
    have hsum : (h.magic.toList ++ LittleEndian.encode h.checksum).length = signatureAt := by
      rw [List.length_append, Vector.length_toList, LittleEndian.length_encode]
      rfl
    have hsign : (h.magic.toList ++ LittleEndian.encode h.checksum ++ h.signature.toList).length =
        wordsAt := by
      rw [List.length_append, hsum, Vector.length_toList]
      rfl
    obtain ⟨stop, hwords⟩ : ∃ stop, h.words.foldlM LittleEndian.put wordsAt
        (fronted (h.magic.toList ++ LittleEndian.encode h.checksum ++ h.signature.toList) data) =
          .ok stop (fronted h.encode data) := by
      refine foldlM_put_fronted hsign ?_
      rw [length_words, wordsAt]
      omega
    have hfront : fronted h.encode data = h.encode ++ data.drop size := by
      rw [fronted, length_encode]
    have hfits : checksumAt + LittleEndian.width UInt32 ≤ data.length :=
      Nat.le_trans (by decide) hroom
    rw [put, ← hfront]
    refine stateBind_eq_ok.mpr ⟨data, data, rfl, ?_⟩
    dsimp only
    rw [if_neg hlong]
    -- the front grows by one part after the other, until it is the header
    refine stateBind_eq_ok.mpr ⟨_, _, overwrite_fronted List.length_nil _, ?_⟩
    refine stateBind_eq_ok.mpr ⟨_, _, put_fronted (Vector.length_toList ..) _ hfits, ?_⟩
    refine stateBind_eq_ok.mpr ⟨_, _, overwrite_fronted hsum _, ?_⟩
    exact stateBind_eq_ok.mpr ⟨_, _, hwords, rfl⟩

theorem write_eq (h : Header) (data : List UInt8) : h.write data =
    if data.length < size then .error .outOfBounds else .ok (h.encode ++ data.drop size) := by
  by_cases hlen : data.length < size
  · rw [write, put_eq, if_pos hlen, if_pos hlen]
  · rw [write, put_eq, if_neg hlen, if_neg hlen]

/-! ## 5. Reading -/

/-- The checks of a header that has been read. -/
def check (h : Header) : Except Error Unit := do
  checkMagic h.magic
  checkSize h.headerSize
  checkEndian h.endianTag

/-- **Reading** takes the fields from their places and checks three of them. -/
theorem read_eq {data : List UInt8} (hlen : size ≤ data.length) :
    read data = do
      (fields data).check
      return fields data := by
  have hroom : 0x70 ≤ data.length := hlen
  rw [read, if_neg (Nat.not_lt.mpr hlen), reader, Cursor.ofList]
  -- no field is beyond the end, so only the checks are left
  simp (disch := omega) only [Cursor.answer_block_bind, Cursor.answer_lift_bind,
    Cursor.answer_word_bind, Cursor.answer_pure]
  simp only [check, bind_assoc]
  rfl

/-- The header has the form that is checked. -/
structure WellFormed (h : Header) : Prop where
  /-- The letters `dex` and a newline. -/
  start : h.magic.toList.take 4 = [0x64, 0x65, 0x78, 0x0A]
  stop : h.magic.toList.drop 7 = [0]
  headerSize : h.headerSize = 0x70
  endianTag : h.endianTag = 0x12345678

/-- A check that refuses what does not hold. -/
theorem refusal_eq_ok {c : Prop} [Decidable c] {cause : Error} {u : Unit} :
    (if c then .ok () else .error cause : Except Error Unit) = .ok u ↔ c := by
  split
  case isTrue h => exact iff_of_true rfl h
  case isFalse h => exact iff_of_false (fun hok => by cases hok) h

theorem check_eq_ok {h : Header} {u : Unit} : h.check = .ok u ↔ h.WellFormed := by
  have hsize : h.headerSize.toNat = size ↔ h.headerSize = 0x70 := by
    rw [← UInt32.toNat_inj]
    rfl
  have hlength : h.magic.toList.length = 8 := Vector.length_toList ..
  have hlast : h.magic.toList.drop 7 = [h.magic[7]] := by
    rw [List.drop_eq_getElem_cons (by omega), List.drop_eq_nil_of_le (by omega),
      Vector.getElem_toList]
  simp only [check, checkMagic, checkSize, checkEndian, bind_eq_ok, refusal_eq_ok, validMagic,
    Bool.and_eq_true, beq_iff_eq, exists_const, hsize]
  constructor
  · rintro ⟨⟨hstart, hstop⟩, hs, he⟩
    exact ⟨hstart, by rw [hlast, hstop], hs, he⟩
  · rintro ⟨hstart, hstop, hs, he⟩
    rw [hlast] at hstop
    exact ⟨⟨hstart, List.singleton_inj.mp hstop⟩, hs, he⟩

/-- **A header reads back**, if it has the form that is checked. -/
theorem read_encode {h : Header} (hw : h.WellFormed) (rest : List UInt8) :
    read (h.encode ++ rest) = .ok h := by
  have hlen : size ≤ (h.encode ++ rest).length := by
    rw [List.length_append, length_encode]
    exact Nat.le_add_right ..
  rw [read_eq hlen, fields_encode]
  exact bind_eq_ok.mpr ⟨(), check_eq_ok.mpr hw, rfl⟩

/-- What is read is a well-formed header, and its bytes are the front. -/
theorem front_of_read {h : Header} {data : List UInt8} (hread : read data = .ok h) :
    size ≤ data.length ∧ h.WellFormed ∧ h.encode = data.take size := by
  have hlen : size ≤ data.length := by
    by_contra hshort
    rw [read, if_pos (Nat.not_le.mp hshort)] at hread
    cases hread
  rw [read_eq hlen] at hread
  obtain ⟨u, hcheck, hfields⟩ := bind_eq_ok.mp hread
  rw [← pure_eq_ok.mp hfields]
  exact ⟨hlen, check_eq_ok.mp hcheck, encode_fields hlen⟩

theorem wellFormed_magicOf {h : Header} {version : UInt16} (hm : h.magic = magicOf version)
    (hs : h.headerSize = 0x70) (he : h.endianTag = endianMark) : h.WellFormed where
  start := by rw [hm]; rfl
  stop := by rw [hm]; rfl
  headerSize := hs
  endianTag := he

/-! ## 6. Both ways -/

/-- **Writing and reading undo each other.**  A well-formed header that is written to a buffer is
read from it again, and nothing behind the header changes; a header that is read from a buffer is
well-formed, and writing it there again changes nothing.  A buffer that is too short for a header
is refused by both, and stays as it is. -/
theorem put_and_read (h : Header) (data : List UInt8) :
    (data.length < 0x70 →
      read data = .error .outOfBounds ∧ h.put data = .error .outOfBounds data) ∧
    (0x70 ≤ data.length → h.WellFormed →
      ∃ data', h.put data = .ok () data' ∧ read data' = .ok h ∧
        data'.length = data.length ∧ data'.drop 0x70 = data.drop 0x70) ∧
    ∀ found, read data = .ok found → found.WellFormed ∧ found.put data = .ok () data := by
  refine ⟨fun (hshort : data.length < size) => ?_, fun (hlen : size ≤ data.length) hw => ?_,
    fun found hread => ?_⟩
  · exact ⟨if_pos hshort, by rw [put_eq, if_pos hshort]⟩
  · have hput : h.put data = .ok () (h.encode ++ data.drop size) := by
      rw [put_eq, if_neg (Nat.not_lt.mpr hlen)]
    have hlength : (h.encode ++ data.drop size).length = data.length := by
      rw [List.length_append, length_encode, List.length_drop]
      omega
    exact ⟨_, hput, read_encode hw _, hlength, List.drop_left' h.length_encode⟩
  · obtain ⟨hlen, hw, hfront⟩ := front_of_read hread
    rw [put_eq, if_neg (Nat.not_lt.mpr hlen), hfront, List.take_append_drop]
    exact ⟨hw, rfl⟩

/-- A header of the latest version, written to a buffer of sevens. -/
theorem put_and_read_sevens :
    let h : Header :=
      { magic := magicOf 39, headerSize := 0x70, endianTag := 0x12345678, mapOff := 0x70 }
    (∃ data, h.put (List.replicate 0x73 7) = .ok () data ∧ read data = .ok h ∧
      data.drop 0x70 = [7, 7, 7]) ∧
    h.put (List.replicate 0x6F 7) = .error .outOfBounds (List.replicate 0x6F 7) := by
  intro h
  have hw : h.WellFormed := wellFormed_magicOf rfl rfl rfl
  obtain ⟨-, hroom, -⟩ := put_and_read h (List.replicate 0x73 7)
  obtain ⟨hshort, -⟩ := put_and_read h (List.replicate 0x6F 7)
  obtain ⟨data, hput, hread, -, hrest⟩ := hroom (by decide) hw
  exact ⟨⟨data, hput, hread, hrest⟩, (hshort (by decide)).2⟩

/-! ## 7. Sealing -/

section Seal

variable (sign : List UInt8 → Vector UInt8 20) (sum : List UInt8 → UInt32)

/-- The bytes from the signature on, as the checksum covers them. -/
def signed (data : List UInt8) : List UInt8 :=
  (sign (data.drop wordsAt)).toList ++ data.drop wordsAt

/-- **Sealing** replaces the bytes of both digests; what it stores depends on those after them. -/
theorem storeDigests_eq (data : List UInt8) : storeDigests sign sum data =
    if data.length < size then .error .outOfBounds data
    else .ok () (data.take checksumAt ++
      (LittleEndian.encode (sum (signed sign data)) ++ signed sign data)) := by
  split
  case isTrue hshort =>
    refine stateBind_eq_error.mpr (.inr ⟨data, data, rfl, stateBind_eq_error.mpr (.inl ?_)⟩)
    rw [signatureWith, if_pos hshort]
    rfl
  case isFalse hlong =>
    have hroom : 0x70 ≤ data.length := Nat.not_lt.mp hlong
    have hfront : (data.take signatureAt).length = signatureAt :=
      List.length_take_of_le (Nat.le_trans (by decide) hroom)
    have hsigned : data.take signatureAt ++ (sign (data.drop wordsAt)).toList ++
        data.drop (signatureAt + (sign (data.drop wordsAt)).toList.length) =
          data.take signatureAt ++ signed sign data := by
      rw [Vector.length_toList, List.append_assoc]
      rfl
    have hlength : ¬ (data.take signatureAt ++ signed sign data).length < size := by
      rw [List.length_append, hfront, signed, List.length_append, Vector.length_toList,
        List.length_drop, size, signatureAt, wordsAt]
      omega
    -- the checksum is of the buffer with the signature in it
    refine stateBind_eq_ok.mpr ⟨data, data, rfl, stateBind_eq_ok.mpr
      ⟨sign (data.drop wordsAt), data, by rw [signatureWith, if_neg hlong]; rfl, ?_⟩⟩
    refine stateBind_eq_ok.mpr ⟨(), data.take signatureAt ++ signed sign data,
      stateModify_eq_ok.mpr hsigned, stateBind_eq_ok.mpr ⟨_, _, rfl, ?_⟩⟩
    refine stateBind_eq_ok.mpr ⟨sum (signed sign data), data.take signatureAt ++ signed sign data,
      by rw [checksumWith, if_neg hlength, List.drop_left' hfront]; rfl,
      stateModify_eq_ok.mpr ?_⟩
    have hback : (data.take signatureAt ++ signed sign data).drop
        (checksumAt + (LittleEndian.encode (sum (signed sign data))).length) =
          signed sign data := by
      rw [LittleEndian.length_encode]
      exact List.drop_left' hfront
    have hstart : (data.take signatureAt ++ signed sign data).take checksumAt =
        data.take checksumAt := by
      rw [List.take_append_of_le_length (by rw [hfront]; decide), List.take_take]
      rfl
    rw [hback, hstart, List.append_assoc]

theorem sealedWith_eq (data : List UInt8) : sealedWith sign sum data =
    if data.length < size then .error .outOfBounds
    else .ok (data.take checksumAt ++
      (LittleEndian.encode (sum (signed sign data)) ++ signed sign data)) := by
  by_cases hlen : data.length < size
  · rw [sealedWith, storeDigests_eq, if_pos hlen, if_pos hlen]
  · rw [sealedWith, storeDigests_eq, if_neg hlen, if_neg hlen]

/-- Sealing only replaces the digests: the signature is of what follows the digests, and the
checksum of what follows the checksum. -/
theorem sealedWith_encode (h : Header) (rest : List UInt8) :
    let tail := h.words.flatMap LittleEndian.encode ++ rest
    sealedWith sign sum (h.encode ++ rest) =
      .ok ({ h with checksum := sum ((sign tail).toList ++ tail), signature := sign tail }.encode ++
        rest) := by
  intro tail
  have hlen : ¬ (h.encode ++ rest).length < size := by
    rw [List.length_append, length_encode]
    omega
  have hparts : h.encode ++ rest =
      h.magic.toList ++ (LittleEndian.encode h.checksum ++ h.signature.toList ++ tail) := by
    rw [encode_eq]
    simp only [List.append_assoc, tail]
  have hfront : (h.encode ++ rest).take checksumAt = h.magic.toList := by
    rw [hparts]
    exact List.take_left' (Vector.length_toList ..)
  have hback : (h.encode ++ rest).drop wordsAt = tail := by
    rw [hparts, ← List.append_assoc]
    refine List.drop_left' ?_
    simp only [List.length_append, LittleEndian.length_encode, Vector.length_toList]
    rfl
  rw [sealedWith_eq, if_neg hlen, hfront, signed, hback, encode_eq]
  simp only [List.append_assoc, tail]
  rfl

end Seal

end Header

end Dalvik
