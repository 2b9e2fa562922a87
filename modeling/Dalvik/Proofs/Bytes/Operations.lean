/-
# Operations of a cursor

The operations of a cursor check their bounds in different ways, and move at different times: some
check and then move, variable-length integers are passed over byte by byte, and a string is searched
and decoded first.  Whatever their order, the position stays at most the end; so no index that they
use is outside of the data (`Watched.Agrees`).

* `Operation.reader_eq_ok_iff`: what an operation that succeeds has passed over, and when it does;
* `Operation.leaves_of_error`: where one that fails leaves the cursor;
* `operations_stay_inside`: both at every point of every run of operations, which goes on after
  those that fail.
-/
import Dalvik.Proofs.Bytes.Alignment
import Dalvik.Proofs.Bytes.Indices

namespace Dalvik

open Leb128 (IsGroup Refused number signedNumber)

namespace Cursor

/-! ## 1. Operations -/

/-- An operation of a cursor, with the type of its answer. -/
inductive Operation : Type → Type 1
  | seek (place : Nat) : Operation Unit
  | advance (count : Nat) : Operation Unit
  | align (alignment : Nat) (positive : 0 < alignment) : Operation Unit
  | field (α : Type) [LittleEndian α] : Operation α
  | uleb128 : Operation UInt32
  | sleb128 : Operation Int32
  | mutf8 : Operation String
  | bytes (count : Nat) : Operation (List UInt8)

/-- The bytes between the positions of two cursors. -/
def upTo (c d : Cursor) : List UInt8 :=
  c.data.extract c.position d.position

namespace Operation

variable {α : Type}

def reader : Operation α → Reader α
  | seek place => Cursor.seek place
  | advance count => Cursor.advance count
  | align alignment _ => Cursor.align alignment
  | field α => Cursor.field α
  | uleb128 => Cursor.uleb128
  | sleb128 => Cursor.sleb128
  | mutf8 => Cursor.mutf8
  | bytes count => Cursor.bytes count

def watched : Operation α → Watched α
  | seek place => Watched.seek place
  | advance count => Watched.advance count
  | align alignment _ => Watched.align alignment
  | field α => Watched.field α
  | uleb128 => Watched.uleb128
  | sleb128 => Watched.sleb128
  | mutf8 => Watched.mutf8
  | bytes count => Watched.bytes count

/-- What an operation that succeeds has done between two positions: it moves to the place that is
asked for, or takes the bytes between them for its answer. -/
def Passes (c d : Cursor) : Operation α → α → Prop
  | seek place, _ => d.position = place
  | advance count, _ => d.position = c.position + count
  | align alignment _, _ => IsLeast (Bytes.multiplesFrom c.position alignment) d.position
  | field α, v =>
    d.position = c.position + LittleEndian.width α ∧ v = LittleEndian.decode (c.upTo d)
  | uleb128, v =>
    IsGroup (c.upTo d) ∧ (c.upTo d).length ≤ 5 ∧ v = UInt32.ofNat (number (c.upTo d))
  | sleb128, v =>
    IsGroup (c.upTo d) ∧ (c.upTo d).length ≤ 5 ∧ v = Int32.ofInt (signedNumber (c.upTo d))
  | mutf8, s => ∃ spelled, c.upTo d = spelled ++ [0] ∧ 0 ∉ spelled ∧ Mutf8.decode spelled = .ok s
  | bytes count, found => d.position = c.position + count ∧ found = c.upTo d

/-- A cursor that is at most five bytes ahead, and not behind the end. -/
def AheadByFive (c d : Cursor) : Prop :=
  d.data = c.data ∧ c.position ≤ d.position ∧ d.position ≤ c.position + 5 ∧
    d.position ≤ c.data.length

/-- Where an operation that fails leaves the cursor: where it was, but for variable-length
integers. -/
def Leaves (c d : Cursor) : Operation α → Prop
  | seek _ | advance _ | align _ _ | field _ | mutf8 | bytes _ => d = c
  | uleb128 | sleb128 => AheadByFive c d

end Operation

/-! ## 2. Success -/

variable {c d : Cursor}

theorem eq_moved_iff {place : Nat} :
    d = { c with position := place } ↔ d.data = c.data ∧ d.position = place := by
  cases d
  simp [Cursor.mk.injEq]

theorem upTo_moved (c : Cursor) (count : Nat) :
    c.upTo { c with position := c.position + count } = c.rest.take count :=
  Watched.extract_add

/-- **Bytes that are there** are those between a cursor and one that has passed over them. -/
theorem upTo_eq_iff {passed : List UInt8} (hne : passed ≠ []) :
    (d.data = c.data ∧ d.position ≤ c.data.length ∧ c.upTo d = passed) ↔
      (∃ after, passed ++ after = c.rest) ∧
        d = { c with position := c.position + passed.length } := by
  have hpos := List.length_pos_iff.mpr hne
  constructor
  · rintro ⟨hdata, hle, rfl⟩
    have htake : c.upTo d = c.rest.take (d.position - c.position) := List.extract_eq_take_drop
    have hlength : (c.upTo d).length = d.position - c.position := by
      rw [htake, rest, List.length_take, List.length_drop]
      omega
    refine ⟨⟨_, htake ▸ List.take_append_drop _ _⟩, eq_moved_iff.mpr ⟨hdata, by omega⟩⟩
  · rintro ⟨⟨after, hfront⟩, rfl⟩
    have hlength := congrArg List.length hfront
    rw [List.length_append, rest, List.length_drop] at hlength
    refine ⟨rfl, by dsimp only; omega, ?_⟩
    rw [upTo_moved, ← hfront, List.take_left]

theorem seek_eq_ok_iff {place : Nat} {u : Unit} : Cursor.seek place c = .ok u d ↔
    d.data = c.data ∧ d.position ≤ c.data.length ∧ d.position = place := by
  rcases Nat.lt_or_ge c.data.length place with hlt | hle
  · rw [seek_of_lt hlt]
    constructor
    · rintro ⟨⟩
    · rintro ⟨-, hle, rfl⟩
      exact absurd hle (Nat.not_le.mpr hlt)
  · rw [seek_of_le hle, EStateM.Result.ok.injEq, @eq_comm _ _ d, eq_moved_iff]
    constructor
    · rintro ⟨-, hdata, rfl⟩
      exact ⟨hdata, hle, rfl⟩
    · rintro ⟨hdata, -, rfl⟩
      exact ⟨rfl, hdata, rfl⟩

theorem bytes_eq_ok_iff {count : Nat} {found : List UInt8} : Cursor.bytes count c = .ok found d ↔
    d.data = c.data ∧ d.position ≤ c.data.length ∧ d.position = c.position + count ∧
      found = c.upTo d := by
  rcases Nat.lt_or_ge c.data.length (c.position + count) with hlt | hle
  · rw [bytes_of_lt hlt]
    constructor
    · rintro ⟨⟩
    · rintro ⟨-, hle, hmoved, -⟩
      omega
  · rw [bytes_of_le hle, EStateM.Result.ok.injEq, @eq_comm _ _ d]
    constructor
    · rintro ⟨rfl, rfl⟩
      exact ⟨rfl, hle, rfl, (upTo_moved c count).symm⟩
    · rintro ⟨hdata, -, hmoved, rfl⟩
      obtain rfl := eq_moved_iff.mpr ⟨hdata, hmoved⟩
      exact ⟨(upTo_moved c count).symm, rfl⟩

theorem field_eq_ok_iff {α : Type} [LittleEndian α] {v : α} : Cursor.field α c = .ok v d ↔
    d.data = c.data ∧ d.position ≤ c.data.length ∧
      d.position = c.position + LittleEndian.width α ∧ v = LittleEndian.decode (c.upTo d) := by
  have hrun : Cursor.field α c = .ok v d ↔ ∃ found,
      Cursor.bytes (LittleEndian.width α) c = .ok found d ∧ LittleEndian.decode found = v := by
    refine stateBind_eq_ok.trans ⟨?_, ?_⟩
    · rintro ⟨found, d', hbytes, hpure⟩
      obtain ⟨hv, rfl⟩ := statePure_eq_ok.mp hpure
      exact ⟨found, hbytes, hv⟩
    · rintro ⟨found, hbytes, rfl⟩
      exact ⟨found, d, hbytes, rfl⟩
  rw [hrun]
  constructor
  · rintro ⟨found, hbytes, rfl⟩
    obtain ⟨hdata, hle, hmoved, rfl⟩ := bytes_eq_ok_iff.mp hbytes
    exact ⟨hdata, hle, hmoved, rfl⟩
  · rintro ⟨hdata, hle, hmoved, rfl⟩
    exact ⟨_, bytes_eq_ok_iff.mpr ⟨hdata, hle, hmoved, rfl⟩, rfl⟩

/-- **Groups that are read** are those between the positions. -/
theorem groups_eq_ok_iff {α : Type} {form : String} {x : Reader α} {value : List UInt8 → α}
    (hx : Leb128.ReadsGroups form x value) {v : α} : x c = .ok v d ↔
      d.data = c.data ∧ d.position ≤ c.data.length ∧ IsGroup (c.upTo d) ∧
        (c.upTo d).length ≤ 5 ∧ v = value (c.upTo d) := by
  constructor
  · intro h
    obtain ⟨passed, hp, rfl⟩ := hx.eq_ok h
    have hne := List.length_pos_iff.mp hp.group.length_pos
    obtain ⟨hdata, hle, hupTo⟩ := (upTo_eq_iff hne).mpr ⟨hp.front, hp.moved⟩
    rw [hupTo]
    exact ⟨hdata, hle, hp.group, hp.length_le, rfl⟩
  · rintro ⟨hdata, hle, hgroup, hlength, rfl⟩
    have hne := List.length_pos_iff.mp hgroup.length_pos
    obtain ⟨hfront, hmoved⟩ := (upTo_eq_iff hne).mp ⟨hdata, hle, rfl⟩
    exact hx.passed ⟨hgroup, hlength, hfront, hmoved⟩

/-- The first zero byte is behind bytes that have none. -/
theorem findIdx?_zero_iff {tail : List UInt8} {length : Nat} :
    tail.findIdx? (· == 0) = some length ↔
      ∃ spelled after, spelled ++ 0 :: after = tail ∧ 0 ∉ spelled ∧ spelled.length = length := by
  constructor
  · intro h
    obtain ⟨hlt, hzero, hbefore⟩ := List.findIdx?_eq_some_iff_getElem.mp h
    refine ⟨tail.take length, tail.drop (length + 1), ?_, ?_,
      List.length_take_of_le (Nat.le_of_lt hlt)⟩
    · rw [← beq_iff_eq.mp hzero, ← List.drop_eq_getElem_cons, List.take_append_drop]
    · intro hmem
      obtain ⟨i, hi, hget⟩ := List.mem_take_iff_getElem.mp hmem
      exact hbefore i (by omega) (by rw [hget]; rfl)
  · rintro ⟨spelled, after, rfl, hnone, rfl⟩
    have hfirst : spelled.findIdx? (· == 0) = none := by
      rw [List.findIdx?_eq_none_iff]
      intro b hb
      exact beq_eq_false_iff_ne.mpr fun h => hnone (h ▸ hb)
    rw [List.findIdx?_append, hfirst]
    simp [List.findIdx?_cons]

/-- **A string that is read** is spelled by the bytes between the positions, but for the zero byte
that ends it. -/
theorem mutf8_eq_ok_iff {s : String} : Cursor.mutf8 c = .ok s d ↔
    d.data = c.data ∧ d.position ≤ c.data.length ∧
      ∃ spelled, c.upTo d = spelled ++ [0] ∧ 0 ∉ spelled ∧ Mutf8.decode spelled = .ok s := by
  have hended (spelled : List UInt8) : spelled ++ [0] ≠ [] := by simp
  rw [mutf8_eq]
  constructor
  · intro h
    cases hfind : c.rest.findIdx? (· == 0) with
    | none =>
      rw [hfind] at h
      cases h
    | some length =>
      obtain ⟨spelled, after, hrest, hnone, rfl⟩ := findIdx?_zero_iff.mp hfind
      have hfront : ∃ after, spelled ++ [0] ++ after = c.rest :=
        ⟨after, by rw [List.append_assoc]; exact hrest⟩
      rw [hfind, ← hrest] at h
      dsimp only at h
      rw [List.take_left] at h
      cases hdecode : Mutf8.decode spelled with
      | error =>
        rw [hdecode] at h
        cases h
      | ok s' =>
        rw [hdecode] at h
        cases h
        obtain ⟨hdata, hle, hupTo⟩ := (upTo_eq_iff (hended spelled)).mpr ⟨hfront, rfl⟩
        rw [List.length_append, List.length_singleton] at hle hupTo
        exact ⟨rfl, hle, spelled, hupTo, hnone, hdecode⟩
  · rintro ⟨hdata, hle, spelled, hupTo, hnone, hdecode⟩
    obtain ⟨⟨after, hrest⟩, rfl⟩ := (upTo_eq_iff (hended spelled)).mp ⟨hdata, hle, hupTo⟩
    rw [List.append_assoc, List.singleton_append] at hrest
    rw [findIdx?_zero_iff.mpr ⟨spelled, after, hrest, hnone, rfl⟩, ← hrest]
    dsimp only
    rw [List.take_left, hdecode, List.length_append, List.length_singleton, Nat.add_assoc]

/-- **An operation succeeds** exactly if it can pass as it says, up to a position that is at most
the end. -/
theorem Operation.reader_eq_ok_iff {α : Type} (op : Operation α) {a : α} :
    op.reader c = .ok a d ↔
      d.data = c.data ∧ d.position ≤ c.data.length ∧ op.Passes c d a := by
  cases op with
  | seek place => exact seek_eq_ok_iff
  | advance count => exact seek_eq_ok_iff
  | align alignment positive =>
    have hleast := Bytes.isLeast_add_missing positive c.position
    have hplace : d.position = c.position + (alignment - c.position % alignment) % alignment ↔
        IsLeast (Bytes.multiplesFrom c.position alignment) d.position :=
      ⟨fun h => h ▸ hleast, fun h => h.unique hleast⟩
    exact seek_eq_ok_iff.trans (and_congr_right' (and_congr_right' hplace))
  | field => exact field_eq_ok_iff
  | uleb128 => exact groups_eq_ok_iff Leb128.readsGroups_uleb128
  | sleb128 => exact groups_eq_ok_iff Leb128.readsGroups_sleb128
  | mutf8 => exact mutf8_eq_ok_iff
  | bytes => exact bytes_eq_ok_iff

/-! ## 3. Failure -/

variable {e : Error}

theorem seek_of_error {place : Nat} (h : Cursor.seek place c = .error e d) : d = c := by
  rcases Nat.lt_or_ge c.data.length place with hlt | hle
  · cases (seek_of_lt hlt).symm.trans h
    rfl
  · cases (seek_of_le hle).symm.trans h

theorem bytes_of_error {count : Nat} (h : Cursor.bytes count c = .error e d) : d = c := by
  rcases Nat.lt_or_ge c.data.length (c.position + count) with hlt | hle
  · cases (bytes_of_lt hlt).symm.trans h
    rfl
  · cases (bytes_of_le hle).symm.trans h

theorem field_of_error {α : Type} [LittleEndian α] (h : Cursor.field α c = .error e d) :
    d = c := by
  rcases stateBind_eq_error.mp h with hbytes | ⟨_, _, -, hpure⟩
  · exact bytes_of_error hbytes
  · exact absurd hpure statePure_ne_error

theorem mutf8_of_error (h : Cursor.mutf8 c = .error e d) : d = c := by
  rw [mutf8_eq] at h
  split at h
  case h_1 =>
    cases h
    rfl
  case h_2 =>
    split at h
    case h_1 => cases h
    case h_2 =>
      cases h
      rfl

/-- **A variable-length integer that is refused** is passed over as far as it has been read. -/
theorem ahead_of_refused {form : String} (hc : c.position ≤ c.data.length)
    (h : Refused form c e d) : Operation.AheadByFive c d := by
  have hrest : c.rest.length = c.data.length - c.position := List.length_drop
  cases h with
  | unfinished hshort =>
    refine ⟨rfl, Nat.le_add_right .., ?_, ?_⟩ <;> dsimp only <;> omega
  | overlong hlong =>
    refine ⟨rfl, Nat.le_add_right .., Nat.le_refl _, ?_⟩
    dsimp only
    omega

/-- **An operation that fails** leaves the cursor where it was, but for variable-length integers. -/
theorem Operation.leaves_of_error {α : Type} (op : Operation α) (hc : c.position ≤ c.data.length)
    (h : op.reader c = .error e d) : op.Leaves c d := by
  cases op with
  | seek => exact seek_of_error h
  | advance => exact seek_of_error h
  | align => exact seek_of_error h
  | field => exact field_of_error h
  | uleb128 => exact ahead_of_refused hc (Leb128.readsGroups_uleb128.eq_error_iff.mp h)
  | sleb128 => exact ahead_of_refused hc (Leb128.readsGroups_sleb128.eq_error_iff.mp h)
  | mutf8 => exact mutf8_of_error h
  | bytes => exact bytes_of_error h

/-- **No operation** uses an index outside of the data, from a position that is at most the end. -/
theorem Operation.agrees {α : Type} (op : Operation α) (hc : c.position ≤ c.data.length) :
    Watched.Agrees op.watched op.reader c := by
  cases op with
  | seek place => exact Watched.agrees_seek place c
  | advance count => exact Watched.agrees_advance count c
  | align alignment positive => exact Watched.agrees_align positive c
  | field α => exact Watched.agrees_field α c
  | uleb128 => exact Watched.agrees_uleb128 c
  | sleb128 => exact Watched.agrees_sleb128 c
  | mutf8 => exact Watched.agrees_mutf8 hc
  | bytes count => exact Watched.agrees_bytes count c

/-! ## 4. Runs -/

/-- The cursor after an operation, whether it succeeds or fails. -/
def Operation.after {α : Type} (op : Operation α) (c : Cursor) : Cursor :=
  match op.reader c with
  | .ok _ d => d
  | .error _ d => d

/-- The cursor after operations, of which some may fail. -/
def run (ops : List (Σ α, Operation α)) (c : Cursor) : Cursor :=
  ops.foldl (fun c op => op.2.after c) c

/-- A position in the data, which may be the end. -/
structure InData (data : List UInt8) (c : Cursor) : Prop where
  data_eq : c.data = data
  le : c.position ≤ data.length

variable {data : List UInt8}

/-- **One operation** keeps the position in the data. -/
theorem InData.after {α : Type} (h : InData data c) (op : Operation α) :
    InData data (op.after c) := by
  obtain ⟨rfl, hc⟩ := h
  rw [Operation.after]
  cases hrun : op.reader c with
  | ok a d =>
    obtain ⟨hdata, hle, -⟩ := op.reader_eq_ok_iff.mp hrun
    exact ⟨hdata, hle⟩
  | error e d =>
    have hleaves := op.leaves_of_error hc hrun
    cases op with
    | uleb128 | sleb128 =>
      obtain ⟨hdata, -, -, hle⟩ := hleaves
      exact ⟨hdata, hle⟩
    | seek | advance | align | field | mutf8 | bytes =>
      obtain rfl : d = c := hleaves
      exact ⟨rfl, hc⟩

/-- **A run** keeps the position in the data. -/
theorem InData.run (h : InData data c) (ops : List (Σ α, Operation α)) :
    InData data (run ops c) := by
  induction ops generalizing c with
  | nil => exact h
  | cons op ops ih => exact ih (h.after op.2)

/-- **Operations stay inside** of the data.  After any run of operations, of which some may have
failed, the position is at most the end.  Then no operation uses an index outside of the data or a
difference below zero: it does what it does when they are watched.  One that succeeds has moved by
what it takes, and one that fails has not moved, but for a variable-length integer, which is passed
over as far as it has been read. -/
theorem operations_stay_inside (data : List UInt8) (ops : List (Σ α, Operation α)) :
    let c := run ops (ofList data)
    c.data = data ∧ c.position ≤ data.length ∧ ∀ {α : Type} (op : Operation α),
      Watched.Agrees op.watched op.reader c ∧ (∀ d, op.watched c ≠ .error .outside d) ∧
      (∀ a d, op.reader c = .ok a d ↔
        d.data = data ∧ d.position ≤ data.length ∧ op.Passes c d a) ∧
      ∀ e d, op.reader c = .error e d → op.Leaves c d := by
  intro c
  have hstart : InData data (ofList data) := ⟨rfl, Nat.zero_le _⟩
  obtain ⟨hdata, hle⟩ := hstart.run ops
  have hc : c.position ≤ c.data.length := hdata.symm ▸ hle
  refine ⟨hdata, hle, fun op => ⟨op.agrees hc, (op.agrees hc).ne_outside, fun a d => ?_,
    fun e d => op.leaves_of_error hc⟩⟩
  rw [op.reader_eq_ok_iff, hdata]

/-- Five bytes of a number that say that more follow, after a read that is too long. -/
theorem operations_stay_inside_overlong :
    let data : List UInt8 := [7, 0x80, 0x80, 0x80, 0x80, 0x80, 7]
    let c := run [⟨_, .seek 1⟩, ⟨_, .bytes 9⟩] (ofList data)
    c = ⟨data, 1⟩ ∧ Cursor.sleb128 c = .error (overlong "sleb128" 1) ⟨data, 6⟩ ∧
      Operation.AheadByFive c ⟨data, 6⟩ ∧ Cursor.bytes 2 c = .ok [0x80, 0x80] ⟨data, 3⟩ := by
  intro data c
  obtain ⟨-, -, hop⟩ := operations_stay_inside data [⟨_, .seek 1⟩, ⟨_, .bytes 9⟩]
  obtain ⟨-, -, -, hleaves⟩ := hop .sleb128
  obtain ⟨-, -, hok, -⟩ := hop (.bytes 2)
  have hc : c = ⟨data, 1⟩ := rfl
  have hopen : (c.rest.take 5).all Leb128.continues = true := by decide
  have hrefused : Refused "sleb128" c (overlong "sleb128" 1) ⟨data, 6⟩ :=
    .overlong (by decide) (List.all_eq_true.mp hopen)
  have hfail := Leb128.readsGroups_sleb128.refused hrefused
  exact ⟨hc, hfail, hleaves _ _ hfail, (hok _ _).mpr ⟨rfl, by decide, rfl, rfl⟩⟩

end Cursor

end Dalvik
