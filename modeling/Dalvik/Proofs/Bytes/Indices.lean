/-
# Indices inside the data

The readers of a cursor are about the bytes that are left.  Behind them are indices: a slice is cut
out between two of them, the byte at one is looked up, and differences and remainders say where to
go.  The watched readers of this file go by these indices, step by step, and stop with a fault of
their own (`Fault.outside`) where one is not inside of the data, a difference would be below zero,
or a remainder is that of a division by zero.

* `Cursor.mutf8_eq`: a string is read by the index of the byte that ends it;
* `Watched.Agrees`: a watched reader does what a reader does, so it never has such a fault;
* `Watched.agrees_seek` and so on: all readers of a cursor agree, if the position is at most the
  end; the loop over the bytes of a string is in `Watched.decode_eq`.
-/
import Dalvik.Bytes.Cursor
import Dalvik.Proofs.Bytes.Groups

namespace Dalvik

/-! ## 1. Strings by an index -/

namespace Cursor

/-- The bytes before the first zero byte are found by its index. -/
theorem takeWhile_eq_take_find (tail : List UInt8) :
    tail.takeWhile (· != 0) = tail.take (tail.findIdx (· == 0)) := by
  have hnot : (fun b : UInt8 => !(b != 0)) = (· == 0) := by
    funext b
    exact Bool.not_not _
  rw [List.takeWhile_eq_take_findIdx_not, hnot]

/-- A string is read by the index of the first zero byte. -/
theorem mutf8_eq (c : Cursor) : mutf8 c =
    match c.rest.findIdx? (· == 0) with
    | none => .error .outOfBounds c
    | some length =>
      match Mutf8.decode (c.rest.take length) with
      | .ok s => .ok s { c with position := c.position + length + 1 }
      | .error cause => .error cause c := by
  have hremaining : c.remaining = c.rest.length := List.length_drop.symm
  have hrun : mutf8 c = (if (c.rest.takeWhile (· != 0)).length < c.remaining then
      match Mutf8.decode (c.rest.takeWhile (· != 0)) with
      | .ok s => do
        advance ((c.rest.takeWhile (· != 0)).length + 1)
        return s
      | .error cause => throw cause
    else throw .outOfBounds : Reader String) c := rfl
  rw [hrun, takeWhile_eq_take_find, hremaining]
  cases hfind : c.rest.findIdx? (· == 0) with
  | none =>
    have hall : c.rest.findIdx (· == 0) = c.rest.length :=
      List.findIdx_eq_length.mpr (List.findIdx?_eq_none_iff.mp hfind)
    rw [hall, List.take_length, if_neg (Nat.lt_irrefl _)]
    rfl
  | some length =>
    obtain ⟨hlt, hfound⟩ := List.findIdx?_eq_some_iff_findIdx_eq.mp hfind
    have hlength : (c.rest.take length).length = length :=
      List.length_take_of_le (Nat.le_of_lt hlt)
    have hle : c.position + (length + 1) ≤ c.data.length := by
      rw [← hremaining, Cursor.remaining] at hlt
      omega
    rw [hfound, hlength, if_pos hlt]
    dsimp only
    cases Mutf8.decode (c.rest.take length) with
    | error => rfl
    | ok s => exact stateBind_of_ok (advance_of_le hle) _

end Cursor

/-! ## 2. Indices -/

/-- Why a watched reader stops. -/
inductive Fault where
  /-- An index is outside of the data, or a difference is below zero. -/
  | outside
  /-- The reader fails, for a cause of its own. -/
  | cause (e : Error)

/-- A step of reading that watches its indices. -/
abbrev Watched := EStateM Fault Cursor

instance {σ : Type} : MonadLift (Except Fault) (EStateM Fault σ) where
  monadLift
    | .ok a => pure a
    | .error fault => throw fault

namespace Watched

/-- The byte at an index. -/
def byteAt (bytes : List UInt8) (i : Nat) : Except Fault UInt8 :=
  if h : i < bytes.length then .ok bytes[i] else .error .outside

/-- The bytes between two indices. -/
def slice (bytes : List UInt8) (start stop : Nat) : Except Fault (List UInt8) :=
  if start ≤ stop ∧ stop ≤ bytes.length then .ok (bytes.extract start stop) else .error .outside

def minus (a b : Nat) : Except Fault Nat :=
  if b ≤ a then .ok (a - b) else .error .outside

def remainder (a b : Nat) : Except Fault Nat :=
  if b = 0 then .error .outside else .ok (a % b)

/-- The position is at most the end. -/
def within (place : Nat) : Watched Unit := do
  if (← get).data.length < place then throw (.cause .outOfBounds) else return ()

def moveTo (place : Nat) : Watched Unit :=
  modify fun c => { c with position := place }

/-! ## 3. Readers -/

def seek (place : Nat) : Watched Unit := do
  within place
  moveTo place

def advance (count : Nat) : Watched Unit := do
  let stop := (← get).position + count
  within stop
  moveTo stop

def align (alignment : Nat) : Watched Unit := do
  let start := (← get).position
  let missing ← minus alignment (← remainder start alignment)
  let padding ← remainder missing alignment
  within (start + padding)
  moveTo (start + padding)

def bytes (count : Nat) : Watched (List UInt8) := do
  let c ← get
  let stop := c.position + count
  within stop
  let found ← slice c.data c.position stop
  moveTo stop
  return found

def field (α : Type) [LittleEndian α] : Watched α := do
  let c ← get
  within (LittleEndian.width α + c.position)
  let read ← slice c.data c.position (c.position + LittleEndian.width α)
  if read.length = LittleEndian.width α then
    moveTo (c.position + LittleEndian.width α)
    return LittleEndian.decode read
  else
    throw (.cause .outOfBounds)

/-- The groups of a variable-length integer; the message about one that is too long goes back by the
five bytes that have been read. -/
def groups {α : Type} (form : String) (finish : UInt8 → UInt32 → UInt32 → α) :
    (left : Nat) → (shift bits : UInt32) → Watched α
  | 0, _, _ => do
    let start ← minus (← get).position 5
    throw (.cause (Cursor.overlong form start))
  | left + 1, shift, bits => do
    let b ← field UInt8
    let bits := bits ||| (b &&& 0x7F).toUInt32 <<< shift
    let shift := shift + 7
    if Leb128.continues b then
      groups form finish left shift bits
    else
      return finish b shift bits

def uleb128 : Watched UInt32 :=
  groups "uleb128" (fun _ _ bits => bits) 5 0 0

def sleb128 : Watched Int32 :=
  groups "sleb128" Leb128.signExtended 5 0 0

/-- The bits of the continuation byte at an index, which may be the end. -/
def continuationAt (bytes : List UInt8) (i : Nat) : Except Fault UInt16 :=
  match bytes[i]? with
  | some b =>
    if Mutf8.isContinuation b then .ok (Mutf8.payload b) else .error (.cause (Mutf8.truncated i))
  | none => .error (.cause (Mutf8.truncated i))

/-- The code units from an index on. -/
def unitsFrom (bytes : List UInt8) (i : Nat) : Except Fault (List UInt16) :=
  if _h : i < bytes.length then do
    let a ← byteAt bytes i
    if a < 0x80 then
      (unitsFrom bytes (i + 1)).map (a.toUInt16 :: ·)
    else if a >>> 5 == 6 then do
      let second ← continuationAt bytes (i + 1)
      (unitsFrom bytes (i + 2)).map (((a &&& 0x1F).toUInt16 <<< 6 ||| second) :: ·)
    else if a >>> 4 == 14 then do
      let second ← continuationAt bytes (i + 1)
      let third ← continuationAt bytes (i + 2)
      (unitsFrom bytes (i + 3)).map
        (((a &&& 0x0F).toUInt16 <<< 12 ||| second <<< 6 ||| third) :: ·)
    else
      .error (.cause (Mutf8.invalidLead a i))
  else
    .ok []
termination_by bytes.length - i

def decode (bytes : List UInt8) : Except Fault String := do
  match Text.chars? (← unitsFrom bytes 0) with
  | some chars => .ok (String.ofList chars)
  | none => .error (.cause (.malformed "Unpaired surrogate in MUTF-8 data"))

def mutf8 : Watched String := do
  let c ← get
  let tail ← slice c.data c.position c.data.length
  match tail.findIdx? (· == 0) with
  | none => throw (.cause .outOfBounds)
  | some length =>
    let spelled ← slice c.data c.position (c.position + length)
    let s ← decode spelled
    moveTo (c.position + length + 1)
    return s

/-! ## 4. Agreement -/

variable {α β : Type} {w : Watched α} {r : Reader α} {c d : Cursor} {a : α} {e : Error}

/-- The watched reader does at the cursor what the reader does; no index is outside. -/
def Agrees (w : Watched α) (r : Reader α) (c : Cursor) : Prop :=
  w c = EStateM.adaptExcept .cause r c

theorem agrees_of_ok (hw : w c = .ok a d) (hr : r c = .ok a d) : Agrees w r c := by
  rw [Agrees, EStateM.adaptExcept, hw, hr]

theorem agrees_of_error (hw : w c = .error (.cause e) d) (hr : r c = .error e d) :
    Agrees w r c := by
  rw [Agrees, EStateM.adaptExcept, hw, hr]

theorem Agrees.bind {g : α → Watched β} {f : α → Reader β} (h : Agrees w r c)
    (hf : ∀ a d, r c = .ok a d → Agrees (g a) (f a) d) : Agrees (w >>= g) (r >>= f) c := by
  have hw : (w >>= g) c = EStateM.bind w g c := rfl
  have hr : (r >>= f) c = EStateM.bind r f c := rfl
  rw [Agrees, EStateM.adaptExcept] at h ⊢
  rw [hw, hr, EStateM.bind, EStateM.bind, h]
  cases hrun : r c with
  | error => rfl
  | ok a d => exact hf a d hrun

theorem agrees_pure (a : α) (c : Cursor) : Agrees (pure a) (pure a) c :=
  rfl

theorem Agrees.ne_outside (h : Agrees w r c) (d : Cursor) : w c ≠ .error .outside d := by
  rw [h, EStateM.adaptExcept]
  cases r c <;> simp

theorem within_bind_of_le {place : Nat} (h : place ≤ c.data.length) (x : Unit → Watched α) :
    (within place >>= x) c = x () c := by
  have hin : within place c = .ok () c :=
    stateBind_eq_ok.mpr ⟨c, c, rfl, by rw [if_neg (Nat.not_lt.mpr h)]; rfl⟩
  exact stateBind_of_ok hin x

theorem within_bind_of_lt {place : Nat} (h : c.data.length < place) (x : Unit → Watched α) :
    (within place >>= x) c = .error (.cause .outOfBounds) c := by
  have hout : within place c = .error (.cause .outOfBounds) c :=
    stateBind_eq_error.mpr (.inr ⟨c, c, rfl, by rw [if_pos h]; rfl⟩)
  exact stateBind_eq_error.mpr (.inl hout)

theorem lift_bind_of_ok {x : Except Fault α} (h : x = .ok a) (f : α → Watched β) :
    ((liftM x : Watched α) >>= f) c = f a c := by
  rw [h]
  rfl

theorem slice_of_le {bytes : List UInt8} {start stop : Nat} (h : start ≤ stop)
    (hs : stop ≤ bytes.length) : slice bytes start stop = .ok (bytes.extract start stop) :=
  if_pos ⟨h, hs⟩

theorem extract_add {bytes : List UInt8} {start count : Nat} :
    bytes.extract start (start + count) = (bytes.drop start).take count := by
  rw [List.extract_eq_take_drop, Nat.add_sub_cancel_left]

/-! ## 5. Moves and fields -/

theorem agrees_seek (place : Nat) (c : Cursor) :
    Agrees (seek place) (Cursor.seek place) c := by
  rcases Nat.lt_or_ge c.data.length place with hlt | hle
  · exact agrees_of_error (within_bind_of_lt hlt _) (Cursor.seek_of_lt hlt)
  · exact agrees_of_ok (within_bind_of_le hle _) (Cursor.seek_of_le hle)

theorem agrees_advance (count : Nat) (c : Cursor) :
    Agrees (advance count) (Cursor.advance count) c :=
  agrees_seek (c.position + count) c

theorem agrees_align {alignment : Nat} (h : 0 < alignment) (c : Cursor) :
    Agrees (align alignment) (Cursor.align alignment) c := by
  have hremainder (n : Nat) : remainder n alignment = .ok (n % alignment) :=
    if_neg (Nat.ne_of_gt h)
  have hminus : minus alignment (c.position % alignment) =
      .ok (alignment - c.position % alignment) :=
    if_pos (Nat.le_of_lt (Nat.mod_lt _ h))
  have hrun : align alignment c =
      seek (c.position + (alignment - c.position % alignment) % alignment) c :=
    (lift_bind_of_ok (hremainder _) _).trans
      ((lift_bind_of_ok hminus _).trans (lift_bind_of_ok (hremainder _) _))
  exact hrun.trans (agrees_seek _ c)

theorem agrees_bytes (count : Nat) (c : Cursor) :
    Agrees (bytes count) (Cursor.bytes count) c := by
  rcases Nat.lt_or_ge c.data.length (c.position + count) with hlt | hle
  · exact agrees_of_error (within_bind_of_lt hlt _) (Cursor.bytes_of_lt hlt)
  · have hslice := slice_of_le (Nat.le_add_right c.position count) hle
    rw [extract_add] at hslice
    have hrun : bytes count c = (do
        let found ← slice c.data c.position (c.position + count)
        moveTo (c.position + count)
        return found : Watched (List UInt8)) c :=
      within_bind_of_le hle _
    exact agrees_of_ok (hrun.trans (lift_bind_of_ok hslice _)) (Cursor.bytes_of_le hle)

theorem agrees_field (α : Type) [LittleEndian α] (c : Cursor) :
    Agrees (field α) (Cursor.field α) c := by
  let width := LittleEndian.width α
  rcases Nat.lt_or_ge c.data.length (c.position + width) with hlt | hle
  · have hlt' : c.data.length < width + c.position := Nat.add_comm .. ▸ hlt
    exact agrees_of_error (within_bind_of_lt hlt' _) (Cursor.field_of_lt hlt)
  · have hslice := slice_of_le (Nat.le_add_right c.position width) hle
    rw [extract_add] at hslice
    have hlength : ((c.data.drop c.position).take width).length = width := by
      rw [List.length_take, List.length_drop]
      omega
    have hle' : width + c.position ≤ c.data.length := Nat.add_comm .. ▸ hle
    refine agrees_of_ok ((within_bind_of_le hle' _).trans
      ((lift_bind_of_ok hslice _).trans ?_)) (Cursor.field_of_le hle)
    rw [if_pos hlength]
    rfl

theorem position_of_field {α : Type} [LittleEndian α] {v : α}
    (h : Cursor.field α c = .ok v d) : d.position = c.position + LittleEndian.width α := by
  rcases Nat.lt_or_ge c.data.length (c.position + LittleEndian.width α) with hlt | hle
  · cases (Cursor.field_of_lt hlt).symm.trans h
  · cases (Cursor.field_of_le hle).symm.trans h
    rfl

/-! ## 6. Variable-length integers -/

/-- Reading goes on by one byte, so five bytes are behind the position when five have been read. -/
theorem agrees_groups {form : String} {finish : UInt8 → UInt32 → UInt32 → α} {left : Nat}
    (shift bits : UInt32) (h : 5 ≤ c.position + left) :
    Agrees (groups form finish left shift bits) (Cursor.groups form finish left shift bits) c := by
  induction left generalizing c shift bits with
  | zero =>
    have hminus : minus c.position 5 = .ok (c.position - 5) := if_pos h
    exact agrees_of_error (lift_bind_of_ok hminus _) rfl
  | succ left ih =>
    refine (agrees_field UInt8 c).bind fun b d hb => ?_
    have hmoved : d.position = c.position + 1 := position_of_field hb
    dsimp only
    split
    case isTrue => exact ih _ _ (by omega)
    case isFalse => exact agrees_pure _ d

theorem agrees_uleb128 (c : Cursor) : Agrees uleb128 Cursor.uleb128 c :=
  agrees_groups 0 0 (Nat.le_add_left 5 _)

theorem agrees_sleb128 (c : Cursor) : Agrees sleb128 Cursor.sleb128 c :=
  agrees_groups 0 0 (Nat.le_add_left 5 _)

/-! ## 7. Strings -/

section Strings

variable {bytes after : List UInt8} {i : Nat} {b : UInt8}

theorem getElem?_of_drop (h : bytes.drop i = b :: after) : bytes[i]? = some b := by
  rw [← Nat.add_zero i, ← List.getElem?_drop, h]
  rfl

theorem byteAt_of_drop (h : bytes.drop i = b :: after) : byteAt bytes i = .ok b := by
  obtain ⟨hi, hb⟩ := List.getElem?_eq_some_iff.mp (getElem?_of_drop h)
  rw [byteAt, dif_pos hi, hb]

theorem continuationAt_of_drop (h : bytes.drop i = b :: after) : continuationAt bytes i =
    if Mutf8.isContinuation b then .ok (Mutf8.payload b)
    else .error (.cause (Mutf8.truncated i)) := by
  rw [continuationAt, getElem?_of_drop h]

theorem continuationAt_of_end (h : bytes.drop i = []) :
    continuationAt bytes i = .error (.cause (Mutf8.truncated i)) := by
  have hend : bytes[i]? = none := List.getElem?_eq_none (List.drop_eq_nil_iff.mp h)
  rw [continuationAt, hend]

/-- What the first byte of a group says is done. -/
theorem unitsFrom_of_drop {a : UInt8} (h : bytes.drop i = a :: after) : unitsFrom bytes i =
    if a < 0x80 then
      (unitsFrom bytes (i + 1)).map (a.toUInt16 :: ·)
    else if a >>> 5 == 6 then do
      let second ← continuationAt bytes (i + 1)
      (unitsFrom bytes (i + 2)).map (((a &&& 0x1F).toUInt16 <<< 6 ||| second) :: ·)
    else if a >>> 4 == 14 then do
      let second ← continuationAt bytes (i + 1)
      let third ← continuationAt bytes (i + 2)
      (unitsFrom bytes (i + 3)).map
        (((a &&& 0x0F).toUInt16 <<< 12 ||| second <<< 6 ||| third) :: ·)
    else
      .error (.cause (Mutf8.invalidLead a i)) := by
  obtain ⟨hi, -⟩ := List.getElem?_eq_some_iff.mp (getElem?_of_drop h)
  rw [unitsFrom, dif_pos hi, byteAt_of_drop h]
  rfl

theorem mapError_map {γ δ : Type} (x : Except Error γ) (f : γ → δ) :
    (x.map f).mapError Fault.cause = (x.mapError Fault.cause).map f := by
  cases x <;> rfl

/-- **The loop over a string** stays inside of it: what is read from an index on is what the bytes
from there on spell. -/
theorem unitsFrom_eq (bytes : List UInt8) (i : Nat) :
    unitsFrom bytes i = (Mutf8.decodeUnits i (bytes.drop i)).mapError .cause := by
  have hnext {j : Nat} {b : UInt8} {after : List UInt8} (h : bytes.drop j = b :: after) :
      bytes.drop (j + 1) = after :=
    Leb128.drop_succ_of_cons h
  generalize htail : bytes.drop i = tail
  fun_induction Mutf8.decodeUnits i tail with
  | case1 i =>
    have hend : ¬ i < bytes.length := Nat.not_lt.mpr (List.drop_eq_nil_iff.mp htail)
    rw [unitsFrom, dif_neg hend]
    rfl
  | case2 i a rest ha ih =>
    rw [unitsFrom_of_drop htail, if_pos ha, ih (hnext htail), mapError_map]
  | case3 i a ha hlead =>
    rw [unitsFrom_of_drop htail, if_neg ha, if_pos hlead, continuationAt_of_end (hnext htail)]
    rfl
  | case4 i a ha hlead b rest hb ih =>
    rw [unitsFrom_of_drop htail, if_neg ha, if_pos hlead, continuationAt_of_drop (hnext htail),
      if_pos hb, mapError_map, ← ih (hnext (hnext htail))]
    rfl
  | case5 i a ha hlead b rest hb =>
    rw [unitsFrom_of_drop htail, if_neg ha, if_pos hlead, continuationAt_of_drop (hnext htail),
      if_neg hb]
    rfl
  | case6 i a ha hlead hlead' =>
    rw [unitsFrom_of_drop htail, if_neg ha, if_neg hlead, if_pos hlead',
      continuationAt_of_end (hnext htail)]
    rfl
  | case7 i a ha hlead hlead' b hb =>
    rw [unitsFrom_of_drop htail, if_neg ha, if_neg hlead, if_pos hlead',
      continuationAt_of_drop (hnext htail), if_pos hb, continuationAt_of_end (hnext (hnext htail))]
    rfl
  | case8 i a ha hlead hlead' b hb c rest hc ih =>
    rw [unitsFrom_of_drop htail, if_neg ha, if_neg hlead, if_pos hlead',
      continuationAt_of_drop (hnext htail), if_pos hb,
      continuationAt_of_drop (hnext (hnext htail)), if_pos hc, mapError_map,
      ← ih (hnext (hnext (hnext htail)))]
    rfl
  | case9 i a ha hlead hlead' b hb c rest hc =>
    rw [unitsFrom_of_drop htail, if_neg ha, if_neg hlead, if_pos hlead',
      continuationAt_of_drop (hnext htail), if_pos hb,
      continuationAt_of_drop (hnext (hnext htail)), if_neg hc]
    rfl
  | case10 i a ha hlead hlead' b rest hb =>
    rw [unitsFrom_of_drop htail, if_neg ha, if_neg hlead, if_pos hlead',
      continuationAt_of_drop (hnext htail), if_neg hb]
    rfl
  | case11 i a rest ha hlead hlead' =>
    rw [unitsFrom_of_drop htail, if_neg ha, if_neg hlead, if_neg hlead']
    rfl

theorem decode_eq (bytes : List UInt8) : decode bytes = (Mutf8.decode bytes).mapError .cause := by
  rw [decode, Mutf8.decode, unitsFrom_eq, List.drop_zero]
  cases Mutf8.decodeUnits 0 bytes with
  | error => rfl
  | ok us =>
    change (match Text.chars? us with | some chars => _ | none => _) =
      Except.mapError _ (match Text.chars? us with | some chars => _ | none => _)
    cases Text.chars? us <;> rfl

/-- The search for the end of a string stays in the data, and so does what it finds. -/
theorem agrees_mutf8 (h : c.position ≤ c.data.length) : Agrees mutf8 Cursor.mutf8 c := by
  have htail : slice c.data c.position c.data.length = .ok c.rest := by
    rw [slice_of_le h (Nat.le_refl _), List.extract_eq_take_drop, ← List.length_drop,
      List.take_length]
    rfl
  have hrun : mutf8 c = (match c.rest.findIdx? (· == 0) with
      | none => throw (.cause .outOfBounds)
      | some length => do
        let spelled ← slice c.data c.position (c.position + length)
        let s ← decode spelled
        moveTo (c.position + length + 1)
        return s : Watched String) c :=
    lift_bind_of_ok htail _
  rw [Agrees, EStateM.adaptExcept, hrun, Cursor.mutf8_eq]
  cases hfind : c.rest.findIdx? (· == 0) with
  | none => rfl
  | some length =>
    obtain ⟨hlt, -⟩ := List.findIdx?_eq_some_iff_findIdx_eq.mp hfind
    have hle : c.position + length ≤ c.data.length := by
      rw [Cursor.rest, List.length_drop] at hlt
      omega
    have hslice := slice_of_le (Nat.le_add_right c.position length) hle
    rw [extract_add] at hslice
    refine (lift_bind_of_ok hslice _).trans ?_
    rw [decode_eq]
    dsimp only
    rw [Cursor.rest]
    cases Mutf8.decode ((c.data.drop c.position).take length) <;> rfl

end Strings

end Watched

end Dalvik
