/-
# Shortest payloads

The payload of a number is as short as can be: a signed number loses the high bytes that its sign
gives back, an unsigned number those that are zero, and a floating-point number the low bytes that
are zero.  For signed numbers this is an argument about one byte at a time: a byte may go exactly if
it repeats the sign bit of the byte below it, and if it may not, the number is out of the range of
what is shorter.

* `isSurplus_iff` is that argument, `dropSurplus_spec` carries it through the loop;
* `signedPayload_isShortest`, `unsignedPayload_isShortest` and `highPayload_isShortest`: there is
  nothing shorter, and nothing else as short;
* `toNat_headerByte`: the number of bytes and the type do not run into each other;
* `payloads_minimal` puts them together, for values as they are written.
-/
import Mathlib.Tactic.Ring
import Dalvik.Bytes.Signed
import Dalvik.Proofs.Bytes.Bits
import Dalvik.Proofs.Bytes.Places
import Dalvik.Proofs.Value.Resolving

namespace Dalvik

/-! ## 1. What payloads stand for -/

namespace IndexedValue

/-- The number that the sign of some bytes extends. -/
def signExtended (bytes : List UInt8) : Int :=
  signed (8 * bytes.length) (Bytes.toNat bytes)

/-- The field that zeros below some bytes complete. -/
def zerosBelow {α : Type} [LittleEndian α] (bytes : List UInt8) : α :=
  LittleEndian.decode (List.replicate (LittleEndian.width α - bytes.length) 0 ++ bytes)

end IndexedValue

/-- One byte more has 256 times as many patterns. -/
theorem pow2_succByte (n : Nat) : pow2 (8 * (n + 1)) = 256 * pow2 (8 * n) := by
  rw [show 8 * (n + 1) = 8 + 8 * n by omega, pow2_add]
  rfl

/-- The sign bit of one byte more. -/
theorem pow2_signBit (n : Nat) : pow2 (8 * (n + 1) - 1) = 128 * pow2 (8 * n) := by
  rw [show 8 * (n + 1) - 1 = 7 + 8 * n by omega, pow2_add]
  rfl

namespace Bytes

theorem toNat_append (x y : List UInt8) :
    toNat (x ++ y) = toNat x + pow2 (8 * x.length) * toNat y := by
  induction x with
  | nil => simp [toNat]
  | cons b rest ih =>
    rw [List.cons_append, toNat, toNat, ih, List.length_cons, pow2_succByte, Nat.mul_assoc]
    omega

theorem toNat_replicate_zero (n : Nat) : toNat (List.replicate n 0) = 0 := by
  induction n with
  | zero => rfl
  | succ n ih =>
    rw [List.replicate_succ, toNat, ih]
    rfl

/-- Bytes of one number of bytes are told apart by their number. -/
theorem eq_of_toNat {p q : List UInt8} (hlength : q.length = p.length) (h : toNat q = toNat p) :
    q = p := by
  rw [← ofNat_toNat q, hlength, h, ofNat_toNat]

end Bytes

/-- Of the byte strings that will do this is the shortest, and the only one as short. -/
structure IsShortest (willDo : List UInt8 → Prop) (p : List UInt8) : Prop where
  does : willDo p
  length_le : ∀ q, willDo q → p.length ≤ q.length
  unique : ∀ q, willDo q → q.length = p.length → q = p

namespace EncodedValue

open IndexedValue

/-! ## 2. Signed numbers -/

section Signed

variable {x p q : List UInt8} {next top : UInt8}

theorem signExtended_singleton (b : UInt8) :
    signExtended [b] = if b.toNat < 128 then (b.toNat : Int) else b.toNat - 256 := by
  have hnat : Bytes.toNat [b] = b.toNat := rfl
  rw [signExtended, signed, hnat]
  rfl

/-- The sign is that of the highest byte. -/
theorem signExtended_concat (x : List UInt8) (b : UInt8) :
    signExtended (x ++ [b]) = Bytes.toNat x + pow2 (8 * x.length) * signExtended [b] := by
  have hnumber : Bytes.toNat (x ++ [b]) = Bytes.toNat x + pow2 (8 * x.length) * b.toNat :=
    Bytes.toNat_append x [b]
  have hlow := Bytes.toNat_lt x
  rw [signExtended_singleton, signExtended, signed, hnumber, List.length_append,
    List.length_singleton, pow2_signBit, pow2_succByte]
  rcases Nat.lt_or_ge b.toNat 128 with hb | hb
  · have hroom := Nat.mul_le_mul_left (pow2 (8 * x.length)) (Nat.succ_le_of_lt hb)
    rw [Nat.mul_succ] at hroom
    rw [if_pos hb, if_pos (by omega)]
    push_cast
    rfl
  · have hroom := Nat.mul_le_mul_left (pow2 (8 * x.length)) hb
    rw [if_neg (by omega), if_neg (by omega)]
    push_cast
    ring

/-- The two highest bytes as one signed number. -/
theorem signExtended_pair (x : List UInt8) (next top : UInt8) : signExtended (x ++ [next, top]) =
    Bytes.toNat x + pow2 (8 * x.length) * (next.toNat + 256 * signExtended [top]) := by
  have hsplit : x ++ [next, top] = (x ++ [next]) ++ [top] := by simp
  rw [hsplit, signExtended_concat, Bytes.toNat_append, List.length_append, List.length_singleton,
    pow2_succByte]
  have hnext : Bytes.toNat [next] = next.toNat := rfl
  rw [hnext]
  push_cast
  ring

/-- **A byte is surplus** exactly if the byte below it has the same sign and the same number without
it. -/
theorem isSurplus_iff : isSurplus top next = true ↔
    next.toNat + 256 * signExtended [top] = signExtended [next] := by
  have hsign := Leb128.continues_iff (b := next)
  rw [Leb128.continues] at hsign
  have hclear : (next &&& 0x80 == 0) = true ↔ next.toNat < 128 := by
    rw [← Nat.not_le, ← hsign, bne_iff_ne, not_ne_iff, beq_iff_eq]
  have hzero : (top == 0x00) = true ↔ top.toNat = 0 := by
    rw [beq_iff_eq, ← UInt8.toNat_inj]
    rfl
  have hones : (top == 0xFF) = true ↔ top.toNat = 255 := by
    rw [beq_iff_eq, ← UInt8.toNat_inj]
    rfl
  have htop := top.toNat_lt
  have hnext := next.toNat_lt
  rw [isSurplus, Bool.or_eq_true, Bool.and_eq_true, Bool.and_eq_true, hclear, hsign, hzero, hones,
    signExtended_singleton, signExtended_singleton]
  split <;> split <;> omega

/-- **Without a surplus byte** the number is the same. -/
theorem signExtended_of_isSurplus (h : isSurplus top next = true) (x : List UInt8) :
    signExtended (x ++ [next, top]) = signExtended (x ++ [next]) := by
  rw [signExtended_pair, isSurplus_iff.mp h, signExtended_concat]

theorem fitsSigned_signExtended (h : q ≠ []) :
    fitsSigned (8 * q.length) (signExtended q) = true :=
  fitsSigned_signed (by have := List.length_pos_of_ne_nil h; omega) (Bytes.toNat_lt q)

/-- **A byte that is not surplus** is needed: the number is out of the range of shorter ones. -/
theorem not_fitsSigned_of_not_isSurplus (h : ¬ isSurplus top next = true) (x : List UInt8) :
    ¬ fitsSigned (8 * (x.length + 1)) (signExtended (x ++ [next, top])) = true := by
  have hlow := Bytes.toNat_lt x
  have hnext := next.toNat_lt
  have htop := top.toNat_lt
  rw [isSurplus_iff] at h
  have hout : 128 ≤ next.toNat + 256 * signExtended [top] ∨
      next.toNat + 256 * signExtended [top] ≤ -129 := by
    rw [signExtended_singleton, signExtended_singleton] at *
    split at h <;> split at h <;> omega
  rw [signExtended_pair, fitsSigned_iff, pow2_signBit]
  rintro ⟨hge, hlt⟩
  have hpos : (0 : Int) < pow2 (8 * x.length) := by exact_mod_cast pow2_pos _
  rcases hout with hout | hout
  · have hfar := Int.mul_le_mul_of_nonneg_left hout (Int.le_of_lt hpos)
    push_cast at hlt
    omega
  · have hfar := Int.mul_le_mul_of_nonneg_left hout (Int.le_of_lt hpos)
    push_cast at hge
    omega

/-- **The loop** keeps the number, drops from the high end only, and stops at a byte that is not
surplus, or at the last. -/
theorem dropSurplus_spec {bytes : List UInt8} (hne : bytes ≠ []) :
    dropSurplus bytes <:+ bytes ∧ dropSurplus bytes ≠ [] ∧
      signExtended (dropSurplus bytes).reverse = signExtended bytes.reverse ∧
      ∀ top next rest, dropSurplus bytes = top :: next :: rest → ¬ isSurplus top next = true := by
  fun_induction dropSurplus bytes with
  | case1 top next rest hs ih =>
    obtain ⟨hsuffix, hnot, hsame, hstop⟩ := ih (List.cons_ne_nil next rest)
    refine ⟨hsuffix.trans (List.suffix_cons top _), hnot, ?_, hstop⟩
    have hdropped := signExtended_of_isSurplus hs rest.reverse
    simp only [List.reverse_cons, List.append_assoc, List.singleton_append] at hsame ⊢
    rw [hsame, hdropped]
  | case2 top next rest hs =>
    refine ⟨List.suffix_refl _, List.cons_ne_nil _ _, rfl, ?_⟩
    rintro _ _ _ ⟨⟩
    exact hs
  | case3 bytes hshort =>
    refine ⟨List.suffix_refl _, hne, rfl, ?_⟩
    rintro top next rest rfl
    exact (hshort top next rest rfl).elim

theorem isShortest_of_signExtended (hne : p ≠ [])
    (hstop : ∀ x next top, p = x ++ [next, top] → ¬ isSurplus top next = true) :
    IsShortest (fun q => q ≠ [] ∧ signExtended q = signExtended p) p where
  does := ⟨hne, rfl⟩
  length_le := by
    rintro q ⟨hq, hsame⟩
    have hpos := List.length_pos_of_ne_nil hq
    rcases List.eq_nil_or_concat p with rfl | ⟨y, top, rfl⟩
    · exact absurd rfl hne
    rcases List.eq_nil_or_concat y with rfl | ⟨x, next, rfl⟩
    · exact hpos
    have hp : (x.concat next).concat top = x ++ [next, top] := by simp
    rw [hp] at hsame hstop ⊢
    by_contra hshort
    rw [List.length_append, List.length_cons, List.length_singleton] at hshort
    have hfits := fitsSigned_mono (b := 8 * (x.length + 1)) (by omega) (fitsSigned_signExtended hq)
    rw [hsame] at hfits
    exact not_fitsSigned_of_not_isSurplus (hstop x next top rfl) x hfits
  unique := by
    rintro q ⟨hq, hsame⟩ hlength
    have hpattern := congrArg (pattern (8 * p.length)) hsame
    have hqlt := Bytes.toNat_lt q
    rw [hlength] at hqlt
    rw [signExtended, signExtended, hlength, pattern_signed hqlt,
      pattern_signed (Bytes.toNat_lt p)] at hpattern
    exact Bytes.eq_of_toNat hlength hpattern

theorem signExtended_encode (v : Int64) : signExtended (LittleEndian.encode v) = v.toInt := by
  have hcond := BitVec.toInt_eq_toNat_cond v.toBitVec
  have hnumber : Bytes.toNat (LittleEndian.encode v) = v.toBitVec.toNat := by
    have hlt := v.toBitVec.isLt
    refine (Bytes.toNat_ofNat 8 _).trans (Nat.mod_eq_of_lt ?_)
    exact hlt
  have hhalf : pow2 (8 * (LittleEndian.encode v).length - 1) = 2 ^ 63 := rfl
  have hall : pow2 (8 * (LittleEndian.encode v).length) = 2 ^ 64 := rfl
  rw [signExtended, signed, hnumber, hhalf, hall, ← Int64.toInt_toBitVec]
  split at hcond <;> split <;> omega

/-- **A signed number** is written as the shortest bytes that its sign extends to it. -/
theorem signedPayload_isShortest (v : Int64) :
    IsShortest (fun q => q ≠ [] ∧ signExtended q = v.toInt) (signedPayload v) ∧
      signedPayload v <+: LittleEndian.encode v := by
  have hlength : (LittleEndian.encode v).length = 8 := LittleEndian.length_encode v
  have hne : (LittleEndian.encode v).reverse ≠ [] := by
    rw [ne_eq, List.reverse_eq_nil_iff]
    exact List.ne_nil_of_length_pos (by omega)
  obtain ⟨hsuffix, hnot, hsame, hstop⟩ := dropSurplus_spec hne
  rw [List.reverse_reverse, signExtended_encode] at hsame
  have hshortest := isShortest_of_signExtended (p := signedPayload v)
    (fun h => hnot (List.reverse_eq_nil_iff.mp h)) (by
      intro x next top hp
      refine hstop top next x.reverse ?_
      rw [← List.reverse_reverse (dropSurplus _), ← signedPayload, hp]
      simp)
  have hprefix := List.reverse_prefix.mpr hsuffix
  rw [List.reverse_reverse] at hprefix
  rw [signedPayload, hsame] at hshortest
  exact ⟨hshortest, hprefix⟩

/-- A signed number of few bytes has a payload of as few. -/
theorem length_signedPayload_le {v : Int64} {limit : Nat} (hlimit : 0 < limit)
    (h : fitsSigned (8 * limit) v.toInt = true) : (signedPayload v).length ≤ limit := by
  have hq : (Bytes.ofNat limit (pattern (8 * limit) v.toInt)).length = limit :=
    Bytes.length_ofNat ..
  rw [← hq]
  refine (signedPayload_isShortest v).1.length_le _ ⟨List.ne_nil_of_length_pos (by omega), ?_⟩
  rw [signExtended, hq, Bytes.toNat_ofNat, Nat.mod_eq_of_lt (pattern_lt ..),
    signed_pattern (by omega) h]

end Signed

/-! ## 3. Zeros at either end -/

/-- Bytes are zeros up to the first that is none, or altogether. -/
theorem zeros_cases (bytes : List UInt8) :
    (∃ zeros b rest, bytes = List.replicate zeros 0 ++ b :: rest ∧ b ≠ 0 ∧
      bytes.findIdx? (· != 0) = some zeros) ∨
    (bytes = List.replicate bytes.length 0 ∧ bytes.findIdx? (· != 0) = none) := by
  induction bytes with
  | nil => exact .inr ⟨rfl, rfl⟩
  | cons b rest ih =>
    by_cases hb : b = 0
    · subst hb
      rw [List.findIdx?_cons]
      rcases ih with ⟨zeros, c, tail, rfl, hc, hfind⟩ | ⟨hall, hfind⟩
      · exact .inl ⟨zeros + 1, c, tail, rfl, hc, by rw [hfind]; rfl⟩
      · refine .inr ⟨?_, by rw [hfind]; rfl⟩
        rw [List.length_cons, List.replicate_succ, ← hall]
    · have hne : (b != 0) = true := bne_iff_ne.mpr hb
      exact .inl ⟨0, b, rest, rfl, hb, by rw [List.findIdx?_cons, hne]; rfl⟩

/-- The bytes that are left when zeros are taken off the high end. -/
theorem take_unsignedLength {bytes : List UInt8} (hne : bytes ≠ []) :
    (∃ zeros, bytes.take (unsignedLength bytes) ++ List.replicate zeros 0 = bytes) ∧
      (bytes.take (unsignedLength bytes) = [0] ∨
        ∃ x b, bytes.take (unsignedLength bytes) = x ++ [b] ∧ b ≠ 0) := by
  have hpos := List.length_pos_of_ne_nil hne
  rcases zeros_cases bytes.reverse with ⟨zeros, b, rest, hsplit, hb, hfind⟩ | ⟨hall, hfind⟩
  · have hbytes : bytes = (rest.reverse ++ [b]) ++ List.replicate zeros 0 := by
      rw [← List.reverse_reverse bytes, hsplit]
      simp
    have hlength : unsignedLength bytes = (rest.reverse ++ [b]).length := by
      rw [unsignedLength, hfind, hbytes, List.length_append, List.length_replicate]
      exact Nat.add_sub_cancel ..
    have htake : bytes.take (unsignedLength bytes) = rest.reverse ++ [b] := by
      rw [hlength]
      conv_lhs => rw [hbytes]
      exact List.take_left
    rw [htake]
    exact ⟨⟨zeros, hbytes.symm⟩, .inr ⟨_, b, rfl, hb⟩⟩
  · have hbytes : bytes = 0 :: List.replicate (bytes.length - 1) 0 := by
      rw [← List.replicate_succ, Nat.sub_add_cancel hpos, ← List.reverse_inj, hall,
        List.reverse_replicate, List.length_reverse]
    have htake : bytes.take (unsignedLength bytes) = [0] := by
      rw [unsignedLength, hfind, hbytes]
      rfl
    rw [htake]
    exact ⟨⟨bytes.length - 1, hbytes.symm⟩, .inl rfl⟩

/-- The bytes that are left when zeros are taken off the low end. -/
theorem drop_lowZeros {data : List UInt8} (hne : data ≠ []) :
    (∃ zeros, List.replicate zeros 0 ++ highPayload data = data) ∧
      (highPayload data = [0] ∨ ∃ b rest, highPayload data = b :: rest ∧ b ≠ 0) := by
  have hpos := List.length_pos_of_ne_nil hne
  rcases zeros_cases data with ⟨zeros, b, rest, hsplit, hb, hfind⟩ | ⟨hall, hfind⟩
  · have hdrop : highPayload data = b :: rest := by
      rw [highPayload, lowZeros, hfind, Option.getD_some, hsplit]
      exact List.drop_left' List.length_replicate
    rw [hdrop]
    exact ⟨⟨zeros, hsplit.symm⟩, .inr ⟨b, rest, rfl, hb⟩⟩
  · have hdrop : highPayload data = [0] := by
      rw [highPayload, lowZeros, hfind, Option.getD_none, hall, List.drop_replicate,
        List.length_replicate]
      have hone : data.length - (data.length - 1) = 1 := by omega
      rw [hone]
      rfl
    rw [hdrop]
    refine ⟨⟨data.length - 1, ?_⟩, .inl rfl⟩
    rw [← List.replicate_succ', Nat.sub_add_cancel hpos, ← hall]

/-! ## 4. Unsigned numbers -/

/-- **An unsigned number** is written as the shortest bytes that zeros extend to it; one or more. -/
theorem unsignedPayload_isShortest (v : UInt64) :
    IsShortest (fun q => q ≠ [] ∧ Bytes.toNat q = v.toNat) (unsignedPayload v) ∧
      unsignedPayload v <+: LittleEndian.encode v := by
  have hne : LittleEndian.encode v ≠ [] := LittleEndian.encode_ne_nil (by decide) v
  have hnumber : Bytes.toNat (LittleEndian.encode v) = v.toNat :=
    (Bytes.toNat_ofNat 8 _).trans (Nat.mod_eq_of_lt v.toNat_lt)
  obtain ⟨⟨zeros, hsplit⟩, hend⟩ := take_unsignedLength hne
  rw [← unsignedPayload] at hsplit hend
  have hsame : Bytes.toNat (unsignedPayload v) = v.toNat := by
    rw [← hnumber]
    conv_rhs => rw [← hsplit]
    rw [Bytes.toNat_append, Bytes.toNat_replicate_zero, Nat.mul_zero, Nat.add_zero]
  refine ⟨⟨⟨?_, hsame⟩, ?_, ?_⟩, ⟨_, hsplit⟩⟩
  · rcases hend with h | ⟨x, b, h, -⟩ <;> simp [h]
  · rintro q ⟨hq, hv⟩
    rcases hend with h | ⟨x, b, h, hb⟩
    · rw [h]
      exact List.length_pos_of_ne_nil hq
    · have hbpos : 1 ≤ b.toNat := Nat.pos_of_ne_zero fun h0 => hb (UInt8.toNat_inj.mp h0)
      have hleast := Nat.mul_le_mul_left (pow2 (8 * x.length)) hbpos
      have hb1 : Bytes.toNat [b] = b.toNat := rfl
      have hlt := Bytes.toNat_lt q
      rw [hv, ← hsame, h, Bytes.toNat_append, hb1] at hlt
      rw [h, List.length_append, List.length_singleton]
      by_contra hshort
      have hle := pow2_le (a := 8 * q.length) (b := 8 * x.length) (by omega)
      omega
  · rintro q ⟨-, hv⟩ hlength
    exact Bytes.eq_of_toNat hlength (hv.trans hsame.symm)

theorem length_unsignedPayload_le {v : UInt64} {limit : Nat} (hlimit : 0 < limit)
    (h : v.toNat < pow2 (8 * limit)) : (unsignedPayload v).length ≤ limit := by
  have hq : (Bytes.ofNat limit v.toNat).length = limit := Bytes.length_ofNat ..
  rw [← hq]
  refine (unsignedPayload_isShortest v).1.length_le _ ⟨List.ne_nil_of_length_pos (by omega), ?_⟩
  rw [Bytes.toNat_ofNat, Nat.mod_eq_of_lt h]

/-! ## 5. Floating-point numbers -/

/-- **A floating-point number** is written as the shortest high bytes, at least one, below which
there are only zeros. -/
theorem highPayload_isShortest {data : List UInt8} (hne : data ≠ []) :
    IsShortest (fun q => q ≠ [] ∧ List.replicate (data.length - q.length) 0 ++ q = data)
        (highPayload data) ∧ highPayload data <:+ data := by
  obtain ⟨⟨zeros, hsplit⟩, hend⟩ := drop_lowZeros hne
  have hlength := congrArg List.length hsplit
  rw [List.length_append, List.length_replicate] at hlength
  have hzeros : data.length - (highPayload data).length = zeros := by omega
  have hdoes : List.replicate (data.length - (highPayload data).length) 0 ++ highPayload data =
      data := by rw [hzeros, hsplit]
  refine ⟨⟨⟨?_, hdoes⟩, ?_, ?_⟩, ⟨_, hsplit⟩⟩
  · rcases hend with h | ⟨b, rest, h, -⟩ <;> simp [h]
  · rintro q ⟨hq, hback⟩
    rcases hend with h | ⟨b, rest, h, hb⟩
    · rw [h]
      exact List.length_pos_of_ne_nil hq
    · by_contra hshort
      -- the first byte of the payload would be one of the zeros below `q`
      have hfirst : data[zeros]? = some b := by
        rw [← hsplit, h]
        simp
      have hzero : data[zeros]? = some 0 := by
        rw [← hback, List.getElem?_append_left (by rw [List.length_replicate]; omega),
          List.getElem?_replicate_of_lt (by omega)]
      exact hb (Option.some.inj (hfirst.symm.trans hzero))
  · rintro q ⟨-, hback⟩ hq
    rw [hq] at hback
    exact List.append_cancel_left (hback.trans hdoes.symm)

/-! ## 6. The first byte -/

/-- **The argument and the type** of a first byte are in bits of their own. -/
theorem toNat_headerByte (t : ValueType) {argument : UInt8} (h : argument.toNat < 8) :
    (headerByte t argument).toNat = 32 * argument.toNat + t.code := by
  have hcode := t.code_lt
  have htype : t.code.toUInt8.toNat = t.code := by
    rw [Nat.toUInt8_eq, UInt8.toNat_ofNat_of_lt' (by
      have : UInt8.size = 256 := rfl
      omega)]
  have hshift : (argument <<< 5).toNat = 32 * argument.toNat := by
    have hfive : (5 : UInt8).toNat % 8 = 5 := rfl
    rw [UInt8.toNat_shiftLeft, hfive, Nat.shiftLeft_eq]
    omega
  rw [headerByte, UInt8.toNat_or, htype, hshift]
  exact or_eq_add (n := 5) hcode ⟨argument.toNat, rfl⟩

/-- A payload of at most `limit` bytes is written after a byte that says, in bits of their own, how
many bytes it has and of which type the value is. -/
structure IsHeaded (t : ValueType) (limit : Nat) (payload : List UInt8)
    (written : Except Error (List UInt8)) : Prop where
  pos : 1 ≤ payload.length
  le : payload.length ≤ limit
  head : ∃ head : UInt8, written = .ok (head :: payload) ∧
    head.toNat / 32 = payload.length - 1 ∧ head.toNat % 32 = t.code

theorem toNat_argument {payload : List UInt8} (h : payload.length ≤ 8) :
    (payload.length - 1).toUInt8.toNat = payload.length - 1 := by
  rw [Nat.toUInt8_eq, UInt8.toNat_ofNat_of_lt' (by
    have : UInt8.size = 256 := rfl
    omega)]

theorem isHeaded_withPayload {t : ValueType} {limit : Nat} {payload : List UInt8}
    (hlimit : limit ≤ 8) (hpos : 1 ≤ payload.length) (hle : payload.length ≤ limit) :
    IsHeaded t limit payload (withPayload t payload) := by
  have hargument := toNat_argument (Nat.le_trans hle hlimit)
  have hcode := t.code_lt
  have hfits : (payload.length - 1).toUInt8.toNat < 8 := by omega
  have hhead := toNat_headerByte t hfits
  exact ⟨hpos, hle, _, rfl, by omega, by omega⟩

/-! ## 7. Values as they are written -/

theorem encode_of_parts {ix : Indexer} {v : EncodedValue} {part : Part} (h : v.parts ix = [part]) :
    v.encode ix = part := by
  rw [encode, h, Part.joined_singleton]

theorem isHeaded_signed {t : ValueType} {limit : Nat} {v : Int64} (hpos : 0 < limit)
    (hlimit : limit ≤ 8) (h : fitsSigned (8 * limit) v.toInt = true) :
    IsHeaded t limit (signedPayload v) (withPayload t (signedPayload v)) :=
  isHeaded_withPayload hlimit (List.length_pos_of_ne_nil (signedPayload_isShortest v).1.does.1)
    (length_signedPayload_le hpos h)

theorem isHeaded_unsigned {t : ValueType} {limit : Nat} {v : UInt64} (hpos : 0 < limit)
    (hlimit : limit ≤ 8) (h : v.toNat < pow2 (8 * limit)) :
    IsHeaded t limit (unsignedPayload v) (withPayload t (unsignedPayload v)) :=
  isHeaded_withPayload hlimit (List.length_pos_of_ne_nil (unsignedPayload_isShortest v).1.does.1)
    (length_unsignedPayload_le hpos h)

theorem isHeaded_high {α : Type} [LittleEndian α] {t : ValueType} (bits : α)
    (hpos : 0 < LittleEndian.width α) (hlimit : LittleEndian.width α ≤ 8) :
    IsHeaded t (LittleEndian.width α) (highPayload (LittleEndian.encode bits))
      (withPayload t (highPayload (LittleEndian.encode bits))) := by
  obtain ⟨hshortest, hsuffix⟩ := highPayload_isShortest (LittleEndian.encode_ne_nil hpos bits)
  refine isHeaded_withPayload hlimit (List.length_pos_of_ne_nil hshortest.does.1) ?_
  rw [← LittleEndian.length_encode bits]
  exact hsuffix.length_le

/-- An index is written as an unsigned number of 32 bits. -/
theorem isHeaded_index {ix : Indexer} {v : EncodedValue} {r : Reference} {i : UInt32}
    (hparts : v.parts ix = [indexPart ix v.valueType r]) (hi : ix r = .ok i) :
    IsHeaded v.valueType 4 (unsignedPayload i.toUInt64) (v.encode ix) := by
  have hpart : indexPart ix v.valueType r =
      withPayload v.valueType (unsignedPayload i.toUInt64) := by
    rw [indexPart, hi]
    rfl
  rw [encode_of_parts hparts, hpart]
  refine isHeaded_unsigned (by decide) (by decide) ?_
  rw [UInt32.toNat_toUInt64]
  exact i.toNat_lt

/-- **Payloads are minimal.**  A signed number is written as the only shortest bytes that its sign
extends to it, the low end of its eight bytes; an unsigned number as the only shortest, at least
one, that zeros extend to it; the bits of a floating-point number as the only shortest high bytes,
at least one, below which there are only zeros.  None has more bytes than its type, and the byte
before them holds their number, less one, and the type in bits of their own. -/
theorem payloads_minimal (ix : Indexer) :
    (∀ v : Int64, IsShortest (fun q => q ≠ [] ∧ signExtended q = v.toInt) (signedPayload v) ∧
      signedPayload v <+: LittleEndian.encode v) ∧
    (∀ v : UInt64, IsShortest (fun q => q ≠ [] ∧ Bytes.toNat q = v.toNat) (unsignedPayload v) ∧
      unsignedPayload v <+: LittleEndian.encode v) ∧
    (∀ data, data ≠ [] →
      IsShortest (fun q => q ≠ [] ∧ List.replicate (data.length - q.length) 0 ++ q = data)
        (highPayload data) ∧ highPayload data <:+ data) ∧
    (∀ v : Int16, IsHeaded .short 2 (signedPayload v.toInt64) ((short v).encode ix)) ∧
    (∀ v : Int32, IsHeaded .int 4 (signedPayload v.toInt64) ((int v).encode ix)) ∧
    (∀ v : Int64, IsHeaded .long 8 (signedPayload v) ((long v).encode ix)) ∧
    (∀ u : UInt16, IsHeaded .char 2 (unsignedPayload u.toUInt64) ((char u).encode ix)) ∧
    (∀ bits : UInt32,
      IsHeaded .float 4 (highPayload (LittleEndian.encode bits)) ((float bits).encode ix)) ∧
    (∀ bits : UInt64,
      IsHeaded .double 8 (highPayload (LittleEndian.encode bits)) ((double bits).encode ix)) ∧
    ∀ v r i, Uses v r → v.valueType ≠ .annotationValue → ix r = .ok i →
      IsHeaded v.valueType 4 (unsignedPayload i.toUInt64) (v.encode ix) := by
  refine ⟨signedPayload_isShortest, unsignedPayload_isShortest, fun _ => highPayload_isShortest,
    fun v => ?_, fun v => ?_, fun v => ?_, fun u => ?_, fun bits => ?_, fun bits => ?_, ?_⟩
  · rw [encode_of_parts rfl]
    refine isHeaded_signed (by decide) (by decide) ?_
    rw [Int16.toInt_toInt64]
    exact fitsSigned_toInt16 v
  · rw [encode_of_parts rfl]
    refine isHeaded_signed (by decide) (by decide) ?_
    rw [Int32.toInt_toInt64]
    exact fitsSigned_toInt32 v
  · rw [encode_of_parts rfl]
    exact isHeaded_signed (by decide) (by decide) (fitsSigned_toInt64 v)
  · rw [encode_of_parts rfl]
    refine isHeaded_unsigned (by decide) (by decide) ?_
    rw [UInt16.toNat_toUInt64]
    exact u.toNat_lt
  · rw [encode_of_parts rfl]
    exact isHeaded_high bits (by decide) (by decide)
  · rw [encode_of_parts rfl]
    exact isHeaded_high bits (by decide) (by decide)
  · intro v r i huses hplain hi
    cases huses with
    | annotationType | elementName => exact absurd rfl hplain
    | _ => exact isHeaded_index rfl hi

/-- A negative number next to the end of one byte, an index of two bytes, and the number one with
its low bytes. -/
theorem payloads_minimal_margins :
    let ix : Indexer := fun _ => .ok 300
    IsHeaded .int 4 [0x7F, 0xFF] ((int (-129)).encode ix) ∧
    (Uses (string "name") (.string "name") ∧ (string "name").valueType ≠ .annotationValue ∧
      ix (.string "name") = .ok 300 ∧
      IsHeaded .string 4 [0x2C, 0x01] ((string "name").encode ix)) ∧
    [0x00, 0x00, 0x80, 0x3F] ≠ ([] : List UInt8) ∧
      ∀ q : List UInt8, q ≠ [] → List.replicate (4 - q.length) 0 ++ q = [0x00, 0x00, 0x80, 0x3F] →
        2 ≤ q.length := by
  intro ix
  obtain ⟨-, -, hhigh, -, hint, -, -, -, -, hindex⟩ := payloads_minimal ix
  have hplain : (string "name").valueType ≠ .annotationValue := by decide
  have hstring := hindex (string "name") _ 300 (.string "name") hplain rfl
  have hne : [0x00, 0x00, 0x80, 0x3F] ≠ ([] : List UInt8) := List.cons_ne_nil _ _
  have hnegative : signedPayload (-129 : Int32).toInt64 = [0x7F, 0xFF] := by decide
  have hname : unsignedPayload (300 : UInt32).toUInt64 = [0x2C, 0x01] := by decide
  have hone : highPayload [0x00, 0x00, 0x80, 0x3F] = [0x80, 0x3F] := by decide
  obtain ⟨hshortest, -⟩ := hhigh _ hne
  rw [hone] at hshortest
  exact ⟨hnegative ▸ hint (-129), ⟨.string "name", hplain, rfl, hname ▸ hstring⟩, hne,
    fun q hq hback => hshortest.length_le q ⟨hq, hback⟩⟩

end EncodedValue

end Dalvik
