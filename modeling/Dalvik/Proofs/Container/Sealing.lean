/-
# Sealed containers

Sealing stores two digests, of which the second covers the first.  Neither covers itself, and the
signature does not cover the checksum, so what is stored depends only on the bytes outside of both
fields, and stays right once it is there.  Nothing is known of the digests but that they are
functions of the bytes that they cover.

* `agreeOutside_iff`: buffers that differ in the digests only;
* `storeDigests_congr` and `storeDigests_again`: sealing does not look at the digests;
* `sealing_consistent`: the digests of a sealed buffer are right, and sealing it again changes
  nothing, as after each container that is written.
-/
import Dalvik.Proofs.Container.IdReading

namespace Dalvik

namespace Header

/-! ## 1. Buffers that differ in their digests -/

/-- Buffers of one length with the same bytes before and after the digests. -/
def AgreeOutside (data other : List UInt8) : Prop :=
  other.length = data.length ∧ ∀ i, i < 8 ∨ 32 ≤ i → other[i]? = data[i]?

theorem agreeOutside_iff {data other : List UInt8} : AgreeOutside data other ↔
    other.length = data.length ∧ other.take checksumAt = data.take checksumAt ∧
      other.drop wordsAt = data.drop wordsAt := by
  refine and_congr_right fun _ => ⟨fun h => ⟨?_, ?_⟩, fun ⟨hfront, hback⟩ i hi => ?_⟩
  · refine List.ext_getElem? fun i => ?_
    rw [List.getElem?_take, List.getElem?_take]
    split
    case isTrue hi => exact h i (.inl hi)
    case isFalse => rfl
  · refine List.ext_getElem? fun i => ?_
    rw [List.getElem?_drop, List.getElem?_drop]
    exact h _ (.inr (Nat.le_add_right ..))
  · rcases hi with hi | hi
    · have hi : i < checksumAt := hi
      have hplace := congrArg (·[i]?) hfront
      rwa [List.getElem?_take_of_lt hi, List.getElem?_take_of_lt hi] at hplace
    · obtain ⟨place, rfl⟩ := Nat.exists_eq_add_of_le hi
      have hplace := congrArg (·[place]?) hback
      rwa [List.getElem?_drop, List.getElem?_drop] at hplace

section Seal

variable (sign : List UInt8 → Vector UInt8 20) (sum : List UInt8 → UInt32)

/-! ## 2. What sealing looks at -/

/-- The digests that a buffer holds are those that it should hold. -/
def Consistent (data : List UInt8) : Prop :=
  (∃ signature, signatureWith sign data = .ok signature ∧
    (data.drop 12).take 20 = signature.toList) ∧
  ∃ checksum, checksumWith sum data = .ok checksum ∧ storedChecksum data = .ok checksum

variable {sign sum} {data other found : List UInt8}

/-- **Sealing does not look at the digests** that are there. -/
theorem storeDigests_congr (h : AgreeOutside data other)
    (hs : storeDigests sign sum data = .ok () found) :
    storeDigests sign sum other = .ok () found := by
  obtain ⟨hlength, hfront, hback⟩ := agreeOutside_iff.mp h
  rw [storeDigests_eq] at hs ⊢
  split at hs
  case isTrue => cases hs
  case isFalse hlong => rw [hlength, if_neg hlong, hfront, signed, hback, ← hs, signed]

/-- A buffer that is not too short is sealed, and every part of it is known. -/
theorem parts_of_storeDigests (hs : storeDigests sign sum data = .ok () found) :
    size ≤ data.length ∧ found.length = data.length ∧
      found.take checksumAt = data.take checksumAt ∧
      (found.drop checksumAt).take 4 = LittleEndian.encode (sum (signed sign data)) ∧
      found.drop signatureAt = signed sign data ∧ found.drop wordsAt = data.drop wordsAt := by
  rw [storeDigests_eq] at hs
  split at hs
  case isTrue => cases hs
  case isFalse hlong =>
    have hroom : 0x70 ≤ data.length := Nat.not_lt.mp hlong
    have hfront : (data.take checksumAt).length = checksumAt :=
      List.length_take_of_le (Nat.le_trans (by decide) hroom)
    have hsum : (LittleEndian.encode (sum (signed sign data))).length = 4 :=
      LittleEndian.length_encode _
    have hsign : (sign (data.drop wordsAt)).toList.length = 20 := Vector.length_toList ..
    obtain rfl : data.take checksumAt ++ (LittleEndian.encode (sum (signed sign data)) ++
        signed sign data) = found := by
      cases hs
      rfl
    have hdrop : (data.take checksumAt ++ (LittleEndian.encode (sum (signed sign data)) ++
        signed sign data)).drop signatureAt = signed sign data := by
      rw [show signatureAt = checksumAt + 4 from rfl, ← List.drop_drop, List.drop_left' hfront,
        List.drop_left' hsum]
    refine ⟨hroom, ?_, List.take_left' hfront, ?_, hdrop, ?_⟩
    · rw [List.length_append, List.length_append, hfront, hsum, signed, List.length_append, hsign,
        List.length_drop, checksumAt, wordsAt]
      omega
    · rw [List.drop_left' hfront, List.take_left' hsum]
    · have hback := congrArg (List.drop 20) hdrop
      rwa [List.drop_drop, signed, List.drop_left' hsign] at hback

theorem agreeOutside_of_storeDigests (hs : storeDigests sign sum data = .ok () found) :
    AgreeOutside data found := by
  obtain ⟨-, hlength, hfront, -, -, hback⟩ := parts_of_storeDigests hs
  exact agreeOutside_iff.mpr ⟨hlength, hfront, hback⟩

/-- **Sealing again** changes nothing. -/
theorem storeDigests_again (hs : storeDigests sign sum data = .ok () found) :
    storeDigests sign sum found = .ok () found :=
  storeDigests_congr (agreeOutside_of_storeDigests hs) hs

/-- **The digests of a sealed buffer** are right. -/
theorem consistent_of_storeDigests (hs : storeDigests sign sum data = .ok () found) :
    Consistent sign sum found := by
  obtain ⟨hroom, hlength, -, hsum, hsigned, hback⟩ := parts_of_storeDigests hs
  have hlong : ¬ found.length < size := by
    rw [hlength]
    exact Nat.not_lt.mpr hroom
  have hfits : LittleEndian.width UInt32 + checksumAt ≤ found.length := by
    rw [hlength]
    exact Nat.le_trans (by decide) hroom
  have hvalue : LittleEndian.decode ((found.drop checksumAt).take (LittleEndian.width UInt32)) =
      sum (signed sign data) := by
    rw [show LittleEndian.width UInt32 = 4 from rfl, hsum, LittleEndian.decode_encode]
  refine ⟨⟨sign (data.drop wordsAt), ?_, ?_⟩, sum (signed sign data), ?_, ?_⟩
  · rw [signatureWith, if_neg hlong, hback]
  · rw [show 12 = signatureAt from rfl, hsigned, signed]
    exact List.take_left' (Vector.length_toList ..)
  · rw [checksumWith, if_neg hlong, hsigned]
  · rw [storedChecksum, LittleEndian.readAt, if_pos hfits, hvalue]
    rfl

end Seal

end Header

/-! ## 3. Containers -/

/-- The last step of writing a container seals it. -/
theorem Container.storeDigests_of_writeWith {sign : List UInt8 → Vector UInt8 20}
    {sum : List UInt8 → UInt32} {options : Container.Options} {classes : List ClassDef}
    {bytes : List UInt8} (h : Container.writeWith sign sum options classes = .ok bytes) :
    Header.storeDigests sign sum bytes = .ok () bytes := by
  obtain ⟨i, -, h⟩ := bind_eq_ok.mp h
  obtain ⟨o, ho, h⟩ := bind_eq_ok.mp h
  obtain ⟨o₁, -, ho⟩ := bind_eq_ok.mp ho
  obtain ⟨o₂, -, ho⟩ := bind_eq_ok.mp ho
  obtain ⟨unsealed, -, ho⟩ := bind_eq_ok.mp ho
  obtain ⟨found, hfound, ho⟩ := bind_eq_ok.mp ho
  obtain rfl := pure_eq_ok.mp ho
  have hbytes : bytes = found := (Except.ok.inj h).symm
  have hsealed : Header.storeDigests sign sum unsealed = .ok () found := by
    unfold Header.sealedWith at hfound
    split at hfound
    case h_1 data hs =>
      rw [← Except.ok.inj hfound]
      exact hs
    case h_2 => cases hfound
  rw [hbytes]
  exact Header.storeDigests_again hsealed

/-- **Sealing is consistent**, whatever the digests are as functions of bytes.  A buffer that is too
short is refused and stays as it is.  In any other, the digests are right afterwards, no other byte
has changed, and sealing it again, or a buffer with the same bytes outside of the digests, comes to
the same.  So nothing changes in a container that has been written, with these digests, when it is
sealed once more. -/
theorem Header.sealing_consistent (sign : List UInt8 → Vector UInt8 20) (sum : List UInt8 → UInt32)
    (data : List UInt8) :
    (data.length < 0x70 → storeDigests sign sum data = .error .outOfBounds data) ∧
    (0x70 ≤ data.length → ∃ found, storeDigests sign sum data = .ok () found ∧
      Consistent sign sum found ∧ AgreeOutside data found ∧
      storeDigests sign sum found = .ok () found ∧
      ∀ other, AgreeOutside data other → storeDigests sign sum other = .ok () found) ∧
    ∀ options classes bytes, Container.writeWith sign sum options classes = .ok bytes →
      storeDigests sign sum bytes = .ok () bytes := by
  refine ⟨fun hshort => ?_, fun hlong => ?_, fun _ _ _ => Container.storeDigests_of_writeWith⟩
  · rw [storeDigests_eq]
    exact if_pos hshort
  · obtain ⟨found, hs⟩ : ∃ found, storeDigests sign sum data = .ok () found := by
      rw [storeDigests_eq]
      exact ⟨_, if_neg (Nat.not_lt.mpr hlong)⟩
    exact ⟨found, hs, consistent_of_storeDigests hs, agreeOutside_of_storeDigests hs,
      storeDigests_again hs, fun _ h => storeDigests_congr h hs⟩

/-- Buffers of sevens, one of them too short and one with zeros for digests, and a container. -/
theorem Header.sealing_consistent_sevens :
    storeDigests Sha1.digest Adler32.checksum (List.replicate 0x6F 7) =
      .error .outOfBounds (List.replicate 0x6F 7) ∧
    (∃ found, storeDigests Sha1.digest Adler32.checksum (List.replicate 0x73 7) = .ok () found ∧
      Consistent Sha1.digest Adler32.checksum found ∧
      storeDigests Sha1.digest Adler32.checksum
        (List.replicate 8 7 ++ List.replicate 24 0 ++ List.replicate 0x53 7) = .ok () found) ∧
    ∃ bytes, Container.write {} [Container.listenerClass] = .ok bytes ∧
      storeDigests Sha1.digest Adler32.checksum bytes = .ok () bytes := by
  obtain ⟨hshort, -, hwrite⟩ :=
    sealing_consistent Sha1.digest Adler32.checksum (List.replicate 0x6F 7)
  obtain ⟨-, hlong, -⟩ := sealing_consistent Sha1.digest Adler32.checksum (List.replicate 0x73 7)
  obtain ⟨found, hs, hdigests, -, -, hother⟩ := hlong (by decide)
  obtain ⟨bytes, hbytes⟩ := exists_of_isOk Container.isOk_write_listenerClass
  have hagree : AgreeOutside (List.replicate 0x73 7)
      (List.replicate 8 7 ++ List.replicate 24 0 ++ List.replicate 0x53 7) :=
    agreeOutside_iff.mpr ⟨by decide, by decide, by decide⟩
  exact ⟨hshort (by decide), ⟨found, hs, hdigests, hother _ hagree⟩, bytes, hbytes,
    hwrite _ _ _ hbytes⟩

end Dalvik
