/-
# Fields of code units

Packing and unpacking undo each other: bytes in units, numbers in two's complement in units and
pairs of units, tables of such numbers, and bytes of array data.  All arithmetic of the instruction
codec is here; the formats are put together from these fields.
-/
import Dalvik.Instruction.Decode

namespace Dalvik

/-! ## 1. Bytes of a unit -/

theorem lowByte_lt (u : UInt16) : lowByte u < 256 :=
  Nat.mod_lt _ (by decide)

theorem highByte_lt (u : UInt16) : highByte u < 256 := by
  have := u.toNat_lt
  simp only [highByte]
  omega

theorem toNat_unitOf {low high : Nat} (hl : low < 256) (hh : high < 256) :
    (unitOf low high).toNat = low + 256 * high := by
  simp only [unitOf, Nat.toUInt16_eq, UInt16.toNat_ofNat']
  omega

theorem lowByte_unitOf {low high : Nat} (hl : low < 256) (hh : high < 256) :
    lowByte (unitOf low high) = low := by
  rw [lowByte, toNat_unitOf hl hh]
  omega

theorem highByte_unitOf {low high : Nat} (hl : low < 256) (hh : high < 256) :
    highByte (unitOf low high) = high := by
  rw [highByte, toNat_unitOf hl hh]
  omega

/-- A unit is made of its bytes. -/
theorem unitOf_bytes (u : UInt16) : unitOf (lowByte u) (highByte u) = u := by
  rw [← UInt16.toNat_inj, toNat_unitOf (lowByte_lt u) (highByte_lt u)]
  simp only [lowByte, highByte]
  omega

theorem toNat_toUInt8 {n : Nat} (h : n < 256) : n.toUInt8.toNat = n := by
  simp only [Nat.toUInt8_eq, UInt8.toNat_ofNat']
  omega

theorem toNat_toUInt16 {n : Nat} (h : n < 65536) : n.toUInt16.toNat = n := by
  simp only [Nat.toUInt16_eq, UInt16.toNat_ofNat']
  omega

theorem toUInt16_eq {n : Nat} {r : UInt16} (h : n = r.toNat) : n.toUInt16 = r := by
  rw [h]
  exact UInt16.ofNat_toNat

theorem toUInt16_toNat (r : UInt16) : r.toNat.toUInt16 = r :=
  toUInt16_eq rfl

theorem low_nibble {a : UInt16} {n : Nat} (ha : a.toNat < 16) :
    ((a.toNat + 16 * n) % 16).toUInt16 = a :=
  toUInt16_eq (by omega)

theorem high_nibble {a n : Nat} (ha : a < 16) : (a + 16 * n) / 16 = n := by
  omega

theorem toNat_toUInt32 {n : Nat} (h : n < 4294967296) : n.toUInt32.toNat = n := by
  simp only [Nat.toUInt32_eq, UInt32.toNat_ofNat']
  omega

theorem toUInt32_unit (u : UInt16) : u.toNat.toUInt32 = u.toUInt32 := by
  rw [← UInt32.toNat_inj, UInt16.toNat_toUInt32]
  exact toNat_toUInt32 (Nat.lt_trans u.toNat_lt (by decide))

theorem toNat_bareIndex (u : UInt16) : u.toUInt32.toNat < 65536 := by
  rw [UInt16.toNat_toUInt32]
  exact u.toNat_lt

theorem toUInt16_bareIndex (u : UInt16) : u.toUInt32.toUInt16 = u := by
  rw [← UInt16.toNat_inj, UInt32.toNat_toUInt16, UInt16.toNat_toUInt32]
  exact Nat.mod_eq_of_lt u.toNat_lt

theorem toNat_shortIndex {index : UInt32} (h : index.toNat < 65536) :
    index.toUInt16.toNat = index.toNat := by
  rw [UInt32.toNat_toUInt16]
  omega

theorem toUInt32_toUInt16 {n : UInt32} (h : n.toNat < 65536) : n.toUInt16.toUInt32 = n := by
  rw [← UInt32.toNat_inj, UInt16.toNat_toUInt32, UInt32.toNat_toUInt16]
  omega

/-! ## 2. Numbers in units -/

theorem toNat_lowUnit (v : Int) : (lowUnit v).toNat = pattern 16 v :=
  toNat_toUInt16 (pattern_lt 16 v)

/-- A unit is the lowest unit of the number it stands for. -/
theorem lowUnit_signed (u : UInt16) : lowUnit (signed 16 u.toNat) = u := by
  rw [← UInt16.toNat_inj, toNat_lowUnit, pattern_signed u.toNat_lt]

theorem wordOf_lt (a b : UInt16) : wordOf a b < pow2 32 := by
  have ha := a.toNat_lt
  have hb := b.toNat_lt
  show a.toNat + 0x10000 * b.toNat < 4294967296
  omega

/-- The two units of a number hold its lowest 32 bits. -/
theorem wordOf_wordUnits (v : Int) :
    wordOf (lowUnit v) (lowUnit (v / 0x10000)) = pattern 32 v := by
  simp only [wordOf, toNat_lowUnit, pattern]
  simp only [show pow2 16 = 65536 from rfl, show pow2 32 = 4294967296 from rfl]
  omega

/-- Two units that hold the pattern of a number are its units. -/
theorem wordUnits_eq {v : Int} {a b : UInt16} (h : pattern 32 v = wordOf a b) :
    wordUnits v = [a, b] := by
  have ha := a.toNat_lt
  have hb := b.toNat_lt
  have hw := wordOf_wordUnits v
  rw [h] at hw
  have hl := (lowUnit v).toNat_lt
  simp only [wordOf] at hw
  have hlow : lowUnit v = a := by rw [← UInt16.toNat_inj]; omega
  have hhigh : lowUnit (v / 0x10000) = b := by rw [← UInt16.toNat_inj]; omega
  rw [wordUnits, hlow, hhigh]

theorem wordUnits_signed (a b : UInt16) : wordUnits (signed 32 (wordOf a b)) = [a, b] :=
  wordUnits_eq (pattern_signed (wordOf_lt a b))

theorem wordUnits_natCast (a b : UInt16) : wordUnits (wordOf a b : Nat) = [a, b] := by
  refine wordUnits_eq ?_
  have h := wordOf_lt a b
  simp only [pattern]
  rw [Int.emod_eq_of_lt (by omega) (by omega), Int.toNat_natCast]

/-- The two units of a small number hold it. -/
theorem wordOf_natCast {n : Nat} (h : n < 4294967296) :
    wordOf (lowUnit n) (lowUnit ((n : Int) / 0x10000)) = n := by
  rw [wordOf_wordUnits, pattern, show pow2 32 = 4294967296 from rfl]
  omega

/-! ## 3. Signed integers -/

theorem toInt_ofInt32 {v : Int} (h : fitsSigned 32 v) : (Int32.ofInt v).toInt = v := by
  obtain ⟨hl, hu⟩ := fitsSigned_iff.mp h
  simp only [show pow2 (32 - 1) = 2147483648 from rfl] at hl hu
  rw [Int32.toInt_ofInt]
  exact Int.bmod_eq_of_le (by simp only [Int32.size]; omega) (by simp only [Int32.size]; omega)

theorem toInt_ofInt64 {v : Int} (h : fitsSigned 64 v) : (Int64.ofInt v).toInt = v := by
  obtain ⟨hl, hu⟩ := fitsSigned_iff.mp h
  simp only [show pow2 (64 - 1) = 9223372036854775808 from rfl] at hl hu
  rw [Int64.toInt_ofInt]
  exact Int.bmod_eq_of_le (by simp only [Int64.size]; omega) (by simp only [Int64.size]; omega)

theorem fitsHigh_iff {shift : Nat} {v : Int} :
    fitsHigh shift v = true ↔ v % pow2 shift = 0 ∧ fitsSigned 16 (v / pow2 shift) := by
  simp [fitsHigh]

/-- A high constant is its sixteen bits, shifted back. -/
theorem signed_high {shift : Nat} {v : Int} (h : fitsHigh shift v = true) :
    signed 16 (lowUnit (v / pow2 shift)).toNat * pow2 shift = v := by
  obtain ⟨hz, hv⟩ := fitsHigh_iff.mp h
  rw [toNat_lowUnit, signed_pattern (by decide) hv]
  exact Int.ediv_mul_cancel_of_emod_eq_zero hz

namespace Instruction

theorem literalOf_pattern {bits : Nat} {v : Int64} (hb : 0 < bits) (hv : fitsSigned bits v.toInt) :
    literalOf bits (pattern bits v.toInt) = .literal v := by
  rw [literalOf, signed_pattern hb hv, Int64.ofInt_toInt]

theorem branchOf_pattern {bits : Nat} {d : Int32} (hb : 0 < bits) (hd : fitsSigned bits d.toInt) :
    branchOf bits (pattern bits d.toInt) = .branch d := by
  rw [branchOf, signed_pattern hb hd, Int32.ofInt_toInt]

/-- A literal that was read is in range, and has the pattern that was read. -/
theorem literalOf_spec {bits n : Nat} (hb : 0 < bits) (hl : bits ≤ 64) (hn : n < pow2 bits) :
    ∃ v, literalOf bits n = .literal v ∧ fitsSigned bits v.toInt = true ∧
      pattern bits v.toInt = n := by
  have hf := fitsSigned_signed hb hn
  have hv := toInt_ofInt64 (fitsSigned_mono hl hf)
  exact ⟨_, rfl, by rwa [hv], by rw [hv, pattern_signed hn]⟩

/-- A branch distance that was read is in range, and has the pattern that was read. -/
theorem branchOf_spec {bits n : Nat} (hb : 0 < bits) (hl : bits ≤ 32) (hn : n < pow2 bits) :
    ∃ d, branchOf bits n = .branch d ∧ fitsSigned bits d.toInt = true ∧
      pattern bits d.toInt = n := by
  have hf := fitsSigned_signed hb hn
  have hd := toInt_ofInt32 (fitsSigned_mono hl hf)
  exact ⟨_, rfl, by rwa [hd], by rw [hd, pattern_signed hn]⟩

end Instruction

/-! ## 4. Tables and wide numbers -/

theorem signedWord_wordUnits (d : Int32) :
    signedWord (lowUnit d.toInt) (lowUnit (d.toInt / 0x10000)) = d := by
  rw [signedWord, wordOf_wordUnits, signed_pattern (by decide) (fitsSigned_toInt32 d),
    Int32.ofInt_toInt]

theorem toInt_signedWord (a b : UInt16) :
    (signedWord a b).toInt = signed 32 (wordOf a b) :=
  toInt_ofInt32 (fitsSigned_signed (by decide) (wordOf_lt a b))

@[simp] theorem length_wordUnits (v : Int) : (wordUnits v).length = 2 := rfl

theorem length_tableUnits (ds : List Int32) :
    (ds.flatMap fun d => wordUnits d.toInt).length = 2 * ds.length := by
  induction ds with
  | nil => rfl
  | cons d ds ih =>
    rw [List.flatMap_cons, List.length_append, ih, length_wordUnits, List.length_cons]
    omega

/-- A table reads back. -/
theorem signedWords_flatMap (ds : List Int32) :
    signedWords (ds.flatMap fun d => wordUnits d.toInt) = ds := by
  induction ds with
  | nil => rfl
  | cons d ds ih =>
    rw [List.flatMap_cons, wordUnits, List.cons_append, List.cons_append, List.nil_append,
      signedWords, ih, signedWord_wordUnits]

/-- Units of even number are those of the table that they hold. -/
theorem flatMap_signedWords :
    ∀ (n : Nat) (units : List UInt16), units.length = 2 * n →
      (signedWords units).flatMap (fun d => wordUnits d.toInt) = units ∧
        (signedWords units).length = n
  | 0, units, h => by
    rw [List.length_eq_zero_iff.mp h]
    exact ⟨rfl, rfl⟩
  | n + 1, [], h => by simp at h
  | n + 1, [_], h => by simp at h; omega
  | n + 1, a :: b :: rest, h => by
    obtain ⟨ih, ihl⟩ := flatMap_signedWords n rest (by simp at h; omega)
    rw [signedWords, List.flatMap_cons, toInt_signedWord, wordUnits_signed, ih, List.length_cons,
      ihl]
    exact ⟨rfl, rfl⟩

theorem wordOf_wordUnits_high (v : Int) :
    wordOf (lowUnit v) (lowUnit (v / 0x10000)) +
      0x100000000 * wordOf (lowUnit (v / 0x100000000)) (lowUnit (v / 0x100000000 / 0x10000)) =
      pattern 64 v := by
  simp only [wordOf_wordUnits, pattern]
  simp only [show pow2 32 = 4294967296 from rfl, show pow2 64 = 18446744073709551616 from rfl]
  omega

theorem wideOf_lt (a b c d : UInt16) :
    wordOf a b + 0x100000000 * wordOf c d < pow2 64 := by
  have h := wordOf_lt a b
  have h' := wordOf_lt c d
  simp only [show pow2 32 = 4294967296 from rfl] at h h'
  show _ < 18446744073709551616
  omega

/-- Four units that hold the pattern of a number are its units. -/
theorem wideUnits_eq {v : Int} {a b c d : UInt16}
    (h : pattern 64 v = wordOf a b + 0x100000000 * wordOf c d) :
    wordUnits v ++ wordUnits (v / 0x100000000) = [a, b, c, d] := by
  have hab := wordOf_lt a b
  have hv := wordOf_lt (lowUnit v) (lowUnit (v / 0x10000))
  simp only [show pow2 32 = 4294967296 from rfl] at hab hv
  have hw := wordOf_wordUnits_high v
  rw [h] at hw
  rw [wordUnits_eq (a := a) (b := b) (by rw [← wordOf_wordUnits]; omega),
    wordUnits_eq (a := c) (b := d) (by rw [← wordOf_wordUnits]; omega)]
  rfl

/-! ## 5. Bytes of array data -/

theorem bytes_unitOf (low high : UInt8) :
    [(lowByte (unitOf low.toNat high.toNat)).toUInt8,
      (highByte (unitOf low.toNat high.toNat)).toUInt8] = [low, high] := by
  rw [lowByte_unitOf low.toNat_lt high.toNat_lt, highByte_unitOf low.toNat_lt high.toNat_lt]
  simp

/-- The accumulator holds the units so far, the latest first. -/
theorem unitsOfBytes_acc : ∀ (data : List UInt8) (done : List UInt16),
    unitsOfBytes done data = done.reverse ++ unitsOfBytes [] data
  | [], done => by simp [unitsOfBytes]
  | [low], done => by simp [unitsOfBytes]
  | low :: high :: rest, done => by
    rw [unitsOfBytes, unitsOfBytes, unitsOfBytes_acc rest, unitsOfBytes_acc rest [_]]
    simp

theorem unitsOfBytes_cons (low high : UInt8) (rest : List UInt8) :
    unitsOfBytes [] (low :: high :: rest) =
      unitOf low.toNat high.toNat :: unitsOfBytes [] rest := by
  rw [unitsOfBytes, unitsOfBytes_acc]
  rfl

theorem length_unitsOfBytes : ∀ data : List UInt8,
    (unitsOfBytes [] data).length = (data.length + 1) / 2
  | [] => rfl
  | [_] => by simp [unitsOfBytes]
  | low :: high :: rest => by
    rw [unitsOfBytes_cons, List.length_cons, length_unitsOfBytes rest]
    simp only [List.length_cons]
    omega

theorem length_bytesOfUnits (units : List UInt16) :
    (bytesOfUnits units).length = 2 * units.length := by
  induction units with
  | nil => rfl
  | cons u units ih =>
    rw [bytesOfUnits, List.flatMap_cons, ← bytesOfUnits, List.length_append, ih]
    simp only [List.length_cons, List.length_nil]
    omega

/-- The bytes of packed bytes are these and, after an odd number, a zero. -/
theorem bytesOfUnits_unitsOfBytes : ∀ data : List UInt8,
    bytesOfUnits (unitsOfBytes [] data) = data ++ List.replicate (data.length % 2) 0
  | [] => rfl
  | [low] => by
    have h := bytes_unitOf low 0
    simp only [unitsOfBytes, List.reverse_singleton, bytesOfUnits, List.flatMap_cons,
      List.flatMap_nil, List.append_nil]
    exact h
  | low :: high :: rest => by
    rw [unitsOfBytes_cons, bytesOfUnits, List.flatMap_cons, ← bytesOfUnits, bytes_unitOf,
      bytesOfUnits_unitsOfBytes rest]
    simp only [List.cons_append, List.nil_append, List.length_cons]
    rw [show (rest.length + 1 + 1) % 2 = rest.length % 2 by omega]

/-- Units are packed from their bytes, and also without a last byte that is zero. -/
theorem unitsOfBytes_take : ∀ (units : List UInt16) (size : Nat),
    (size + 1) / 2 = units.length → (bytesOfUnits units).getD size 0 = 0 →
      unitsOfBytes [] ((bytesOfUnits units).take size) = units
  | [], size, _, _ => by simp [bytesOfUnits, unitsOfBytes]
  | u :: units, 0, h, _ => by simp at h
  | u :: units, 1, h, hz => by
    have hu : units = [] :=
      List.length_eq_zero_iff.mp (by simp only [List.length_cons] at h; omega)
    subst hu
    have hh : (highByte u).toUInt8 = 0 := by simpa [bytesOfUnits] using hz
    have hn : highByte u = 0 := by
      rw [← toNat_toUInt8 (highByte_lt u), hh]; rfl
    have hb := unitOf_bytes u
    rw [hn] at hb
    simp only [bytesOfUnits, List.flatMap_cons, List.flatMap_nil, List.append_nil,
      List.take_succ_cons, List.take_zero, unitsOfBytes, List.reverse_singleton,
      toNat_toUInt8 (lowByte_lt u), hb]
  | u :: units, size + 2, h, hz => by
    have hb : bytesOfUnits (u :: units) =
        (lowByte u).toUInt8 :: (highByte u).toUInt8 :: bytesOfUnits units := rfl
    have ih := unitsOfBytes_take units size (by simp at h; omega) (by
      rw [hb] at hz; simpa using hz)
    rw [hb, List.take_succ_cons, List.take_succ_cons, unitsOfBytes_cons, ih,
      toNat_toUInt8 (lowByte_lt u), toNat_toUInt8 (highByte_lt u), unitOf_bytes]

end Dalvik
