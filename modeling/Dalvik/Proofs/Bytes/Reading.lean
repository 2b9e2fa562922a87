/-
# Reading what has been written

Bytes stand at a position of some data if the data has them there.  A reader takes bytes at a
position if, in all data where they stand there, it passes over exactly these bytes and its answer
is always the same.  So what comes after the bytes does not matter, and a reader made of parts takes
what the parts take, one after the other.

* `Takes.bind` and `Takes.times` put readers together;
* `Takes.field`, `Takes.uleb128`, `Takes.sleb128` and `Takes.mutf8` say that the readers of single
  values take what the writers write;
* `answerAt_of_takes` is the use of it: reading at an offset of a container.
-/
import Dalvik.Proofs.Bytes.Groups
import Dalvik.Proofs.Text.Mutf8

namespace Dalvik

/-! ## 1. Bytes at a position -/

/-- The data has the bytes at a position. -/
def Stands (data : List UInt8) (pos : Nat) (bytes : List UInt8) : Prop :=
  ∃ before after, data = before ++ (bytes ++ after) ∧ before.length = pos

namespace Stands

variable {data bytes a b : List UInt8} {pos : Nat}

theorem start (bytes rest : List UInt8) : Stands (bytes ++ rest) 0 bytes :=
  ⟨[], rest, rfl, rfl⟩

theorem left (h : Stands data pos (a ++ b)) : Stands data pos a := by
  obtain ⟨before, after, rfl, hl⟩ := h
  exact ⟨before, b ++ after, by rw [List.append_assoc], hl⟩

theorem right (h : Stands data pos (a ++ b)) : Stands data (pos + a.length) b := by
  obtain ⟨before, after, rfl, rfl⟩ := h
  refine ⟨before ++ a, after, ?_, List.length_append⟩
  rw [List.append_assoc, List.append_assoc]

/-- What stands in the bytes stands in the data. -/
theorem trans {part : List UInt8} {offset : Nat} (h : Stands data pos bytes)
    (hp : Stands bytes offset part) : Stands data (pos + offset) part := by
  obtain ⟨before, after, rfl, rfl⟩ := h
  obtain ⟨front, back, rfl, rfl⟩ := hp
  refine ⟨before ++ front, back ++ after, ?_, List.length_append⟩
  simp only [List.append_assoc]

theorem append (h : Stands data pos bytes) (more : List UInt8) :
    Stands (data ++ more) pos bytes := by
  obtain ⟨before, after, rfl, hl⟩ := h
  refine ⟨before, after ++ more, ?_, hl⟩
  simp only [List.append_assoc]

theorem le (h : Stands data pos bytes) : pos + bytes.length ≤ data.length := by
  obtain ⟨before, after, rfl, rfl⟩ := h
  simp only [List.length_append]
  omega

theorem drop (h : Stands data pos bytes) : ∃ after, data.drop pos = bytes ++ after := by
  obtain ⟨before, after, rfl, rfl⟩ := h
  exact ⟨after, List.drop_left⟩

end Stands

/-! ## 2. Readers -/

/-- The reader passes over the bytes, wherever they stand at the position, with the answer. -/
def Takes {α : Type} (r : Reader α) (pos : Nat) (bytes : List UInt8) (a : α) : Prop :=
  ∀ data, Stands data pos bytes → r ⟨data, pos⟩ = .ok a ⟨data, pos + bytes.length⟩

namespace Reader

variable {α : Type}

/-- Reads a number of items of one form. -/
def times : (count : Nat) → Reader α → Reader (List α)
  | 0, _ => return []
  | count + 1, r => do
    let first ← r
    return first :: (← times count r)

/-- The position of a reader. -/
def position : Reader Nat := do
  return (← get).position

/-- What a reader answers at an offset of the data. -/
def answerAt (data : List UInt8) (offset : Nat) (r : Reader α) : Except Error α :=
  match (do Cursor.seek offset; r) (Cursor.ofList data) with
  | .ok a _ => .ok a
  | .error cause _ => .error cause

end Reader

variable {α β : Type}

/-- **A reader of bytes that stand in the data** answers there. -/
theorem answerAt_of_takes {r : Reader α} {data bytes : List UInt8} {offset : Nat} {a : α}
    (h : Takes r offset bytes a) (hs : Stands data offset bytes) :
    Reader.answerAt data offset r = .ok a := by
  have hle := hs.le
  have hseek : Cursor.seek offset (Cursor.ofList data) = .ok () ⟨data, offset⟩ :=
    Cursor.seek_of_le (by omega)
  have hrun : (do Cursor.seek offset; r) (Cursor.ofList data) =
      .ok a ⟨data, offset + bytes.length⟩ :=
    stateBind_eq_ok.mpr ⟨(), _, hseek, h data hs⟩
  rw [Reader.answerAt, hrun]

namespace Takes

/-! ## 3. Readers made of parts -/

theorem pure (pos : Nat) (a : α) : Takes (pure a) pos [] a :=
  fun _ _ => rfl

theorem bind {r : Reader α} {f : α → Reader β} {pos : Nat} {x y : List UInt8} {a : α} {b : β}
    (hr : Takes r pos x a) (hf : Takes (f a) (pos + x.length) y b) :
    Takes (r >>= f) pos (x ++ y) b := by
  intro data hs
  refine stateBind_eq_ok.mpr ⟨a, ⟨data, pos + x.length⟩, hr data hs.left, ?_⟩
  rw [hf data hs.right, List.length_append, Nat.add_assoc]

/-- The last part of a reader that takes anything. -/
theorem last {r : Reader α} {f : α → Reader β} {pos : Nat} {bytes : List UInt8} {a : α} {b : β}
    (hr : Takes r pos bytes a) (hf : Takes (f a) (pos + bytes.length) [] b) :
    Takes (r >>= f) pos bytes b := by
  have h := hr.bind hf
  rwa [List.append_nil] at h

theorem map {r : Reader α} {f : α → β} {pos : Nat} {bytes : List UInt8} {a : α}
    (hr : Takes r pos bytes a) : Takes (do return f (← r)) pos bytes (f a) :=
  last (f := fun a => Pure.pure (f a)) hr (pure _ _)

/-- **Items of one form** are taken one after the other. -/
theorem times {r : Reader α} {chunks : List (List UInt8)} {items : List α}
    (h : List.Forall₂ (fun bytes a => ∀ pos, Takes r pos bytes a) chunks items) (pos : Nat) :
    Takes (Reader.times items.length r) pos chunks.flatten items := by
  induction h generalizing pos with
  | nil => exact pure pos []
  | cons h _ ih =>
    rw [List.flatten_cons]
    exact bind (h pos) (ih _).map

/-- Items of one form, of which each is written by one function. -/
theorem times_map {r : Reader α} {encode : β → List UInt8} {f : β → α} {l : List β}
    (h : ∀ b ∈ l, ∀ pos, Takes r pos (encode b) (f b)) (pos : Nat) :
    Takes (Reader.times l.length r) pos (l.flatMap encode) (l.map f) := by
  induction l generalizing pos with
  | nil => exact pure pos []
  | cons b rest ih =>
    rw [List.flatMap_cons]
    have hrest := ih (fun c hc => h c (List.mem_cons_of_mem _ hc)) (pos + (encode b).length)
    exact bind (h b (List.mem_cons_self ..) pos) hrest.map

/-- The position, which takes nothing. -/
theorem position {f : Nat → Reader β} {pos : Nat} {bytes : List UInt8} {b : β}
    (h : Takes (f pos) pos bytes b) : Takes (Reader.position >>= f) pos bytes b :=
  bind (fun _ _ => rfl : Takes Reader.position pos [] pos) h

/-! ## 4. Single values -/

theorem advance (pos : Nat) (bytes : List UInt8) :
    Takes (Cursor.advance bytes.length) pos bytes () :=
  fun _ hs => Cursor.advance_of_le hs.le

/-- Zeros up to the next multiple of an alignment are passed over. -/
theorem align {pos alignment count : Nat} (h : count = (alignment - pos % alignment) % alignment) :
    Takes (Cursor.align alignment) pos (List.replicate count 0) () := by
  intro data hs
  have hrun : Cursor.align alignment ⟨data, pos⟩ =
      Cursor.advance ((alignment - pos % alignment) % alignment) ⟨data, pos⟩ := rfl
  have hle := hs.le
  rw [List.length_replicate] at hle ⊢
  rw [hrun, ← h, Cursor.advance_of_le hle]

theorem bytes (pos : Nat) (bytes : List UInt8) :
    Takes (Cursor.bytes bytes.length) pos bytes bytes := by
  intro data hs
  obtain ⟨after, hd⟩ := hs.drop
  have hrest : (Cursor.rest ⟨data, pos⟩).take bytes.length = bytes := by
    rw [Cursor.rest, hd, List.take_left]
  refine stateBind_eq_ok.mpr ⟨_, _, rfl, stateBind_eq_ok.mpr ⟨_, _, advance pos bytes data hs, ?_⟩⟩
  exact statePure_eq_ok.mpr ⟨hrest, rfl⟩

/-- **A field** is read back. -/
theorem field [LittleEndian α] (pos : Nat) (a : α) :
    Takes (Cursor.field α) pos (LittleEndian.encode a) a := by
  have h := bytes pos (LittleEndian.encode a)
  rw [LittleEndian.length_encode] at h
  have hd := h.map (f := fun found => (LittleEndian.decode found : α))
  rwa [LittleEndian.decode_encode] at hd

/-- **An unsigned variable-length integer** is read back. -/
theorem uleb128 (pos : Nat) (v : UInt32) :
    Takes Cursor.uleb128 pos (Leb128.encodeUnsigned v) v := by
  intro data hs
  obtain ⟨after, hd⟩ := hs.drop
  exact Leb128.uleb128_of_encoded hd

/-- **A signed variable-length integer** is read back. -/
theorem sleb128 (pos : Nat) (v : Int32) :
    Takes Cursor.sleb128 pos (Leb128.encodeSigned v) v := by
  intro data hs
  obtain ⟨after, hd⟩ := hs.drop
  exact Leb128.sleb128_of_encoded hd

/-- **A string** and the zero byte that ends it are read back. -/
theorem mutf8 (pos : Nat) (s : String) :
    Takes Cursor.mutf8 pos (Mutf8.encode s ++ [0]) s := by
  intro data hs
  have hle := hs.le
  obtain ⟨after, hd⟩ := hs.drop
  have hne : ∀ b ∈ Mutf8.encode s, (b != 0) = true := fun b hb =>
    bne_iff_ne.mpr (Mutf8.ne_zero_of_mem_encode hb)
  have hspelled : (Cursor.rest ⟨data, pos⟩).takeWhile (· != 0) = Mutf8.encode s := by
    have hz : ([0] ++ after : List UInt8).takeWhile (· != 0) = [] := rfl
    rw [Cursor.rest, hd, List.append_assoc, List.takeWhile_append_of_pos hne, hz, List.append_nil]
  have hmore : (Mutf8.encode s).length < Cursor.remaining ⟨data, pos⟩ := by
    have hremaining : Cursor.remaining ⟨data, pos⟩ = data.length - pos := rfl
    rw [List.length_append, List.length_singleton] at hle
    omega
  have hadvance := advance pos (Mutf8.encode s ++ [0]) data hs
  rw [List.length_append, List.length_singleton] at hadvance ⊢
  refine stateBind_eq_ok.mpr ⟨_, _, rfl, ?_⟩
  rw [hspelled, if_pos hmore, Mutf8.decode_encode]
  exact stateBind_eq_ok.mpr ⟨_, _, hadvance, rfl⟩

end Takes

end Dalvik
