/-
# Handler lists, each once

Ranges with the same handlers share a list, and it is the keys of the lists that say which are the
same.  The lists are written one after the other, each takes at least one byte, and the place of a
list is the number of bytes before it; so places go up strictly, and two ranges have the same place
exactly if they have the same key, that is, the same handlers.

The size of a list says how many typed handlers follow, and by its sign whether one that catches
everything comes after them.  Zero counts as negative: a list without typed handlers has to have one
that catches everything.

* `takes_handlers`: a list reads back, with types by their indices;
* `mem_keys_distinctLists` and `handlerListCount_eq`: there is one list for each key, and
  `handlerListCount` counts them;
* `stands_of_lookup` and `lookup_inj`: where a list is, and that no other is there.
-/
import Mathlib.Data.List.Nodup
import Mathlib.Data.List.Perm.Basic
import Dalvik.Proofs.Container.Appending
import Dalvik.Proofs.Container.CodeItem
import Dalvik.Proofs.Key
import Dalvik.Proofs.Sorting

namespace Dalvik

/-! ## 1. Keys of lists -/

theorem key_handlers (list : HandlerList) : key list = key (list.typed, list.catchAll) :=
  rfl

/-- Handler lists are told apart by their keys. -/
instance : Delimited HandlerList :=
  .ofKey (fun list => (list.typed, list.catchAll)) key_handlers fun a b h => by
    cases a
    cases b
    simpa using h

/-! ## 2. One list of each key -/

namespace Body

/-- The lists that are kept have different keys, none of which has been seen. -/
theorem nodup_firstLists (seen : List (List UInt8)) (lists : List HandlerList) :
    ((firstLists seen lists).map key).Nodup ∧ ∀ k ∈ (firstLists seen lists).map key, k ∉ seen := by
  induction lists generalizing seen with
  | nil => exact ⟨List.nodup_nil, fun _ hk => (List.not_mem_nil hk).elim⟩
  | cons list rest ih =>
    rw [firstLists]
    split
    case isTrue => exact ih seen
    case isFalse hs =>
      obtain ⟨hn, hseen⟩ := ih (key list :: seen)
      rw [List.map_cons]
      refine ⟨List.nodup_cons.mpr ⟨fun hk => hseen _ hk (List.mem_cons_self ..), hn⟩, ?_⟩
      rintro k (_ | ⟨_, hk⟩)
      · simpa using hs
      · exact fun hks => hseen k hk (List.mem_cons_of_mem _ hks)

theorem key_mem_firstLists {seen : List (List UInt8)} {lists : List HandlerList}
    {list : HandlerList} (h : list ∈ lists) :
    key list ∈ seen ∨ key list ∈ (firstLists seen lists).map key := by
  induction lists generalizing seen with
  | nil => exact (List.not_mem_nil h).elim
  | cons first rest ih =>
    rw [firstLists]
    split
    case isTrue hs =>
      rcases List.mem_cons.mp h with rfl | h
      · exact .inl (by simpa using hs)
      · exact ih h
    case isFalse =>
      rw [List.map_cons, List.mem_cons]
      rcases List.mem_cons.mp h with rfl | h
      · exact .inr (.inl rfl)
      · rcases ih h with hs | hs
        · rcases List.mem_cons.mp hs with he | hs
          · exact .inr (.inl he)
          · exact .inl hs
        · exact .inr (.inr hs)

variable {tries : List ResolvedTry}

theorem nodup_keys_distinctLists (tries : List ResolvedTry) :
    ((distinctLists tries).map key).Nodup :=
  (nodup_firstLists [] _).1

/-- The keys of the lists that are written are those of the ranges. -/
theorem mem_keys_distinctLists {k : List UInt8} :
    k ∈ (distinctLists tries).map key ↔ ∃ t ∈ tries, key t.handlers = k := by
  constructor
  · intro h
    obtain ⟨list, hl, rfl⟩ := List.mem_map.mp h
    obtain ⟨t, ht, rfl⟩ := List.mem_map.mp (mem_of_mem_firstLists hl)
    exact ⟨t, ht, rfl⟩
  · rintro ⟨t, ht, rfl⟩
    exact (key_mem_firstLists (List.mem_map_of_mem ht)).resolve_left List.not_mem_nil

/-- **The number of handler lists** is the number of those that are written. -/
theorem handlerListCount_eq {b : Body} (h : b.resolveTries = .ok tries) :
    b.handlerListCount = .ok (distinctLists tries).length := by
  have hsorted : ((tries.map fun t => key t.handlers).mergeSort fun a b =>
      (compare a b).isLE).Pairwise fun a b => (compare a b).isLE = true := pairwise_mergeSort_isLE _
  have hperm : ((tries.map fun t => key t.handlers).mergeSort fun a b =>
      (compare a b).isLE).eraseReps.Perm ((distinctLists tries).map key) := by
    refine (List.perm_ext_iff_of_nodup (nodup_eraseReps hsorted)
      (nodup_keys_distinctLists tries)).mpr fun k => ?_
    rw [mem_eraseReps, (List.mergeSort_perm ..).mem_iff, mem_keys_distinctLists, List.mem_map]
  rw [handlerListCount, h]
  simp only [bind, Except.bind, pure, Except.pure]
  rw [hperm.length_eq, List.length_map]

end Body

/-! ## 3. A list read back -/

/-- Handlers as a container has them, with types by their indices. -/
structure HandlersFound where
  typed : List (UInt32 × UInt32) := []
  catchAll : Option UInt32 := none
  deriving DecidableEq, Repr, Inhabited

namespace HandlersFound

/-- Reads a typed handler: the index of its type, and its address. -/
def readTyped : Reader (UInt32 × UInt32) := do
  let type ← Cursor.uleb128
  let address ← Cursor.uleb128
  return (type, address)

/-- **Reads a handler list**: its size, the typed handlers, and the address of the one that catches
everything exactly if the size is not positive. -/
def read : Reader HandlersFound := do
  let size ← Cursor.sleb128
  let typed ← Reader.times size.toInt.natAbs readTyped
  if size ≤ 0 then
    let address ← Cursor.uleb128
    return { typed, catchAll := some address }
  else
    return { typed }

/-- The handlers found are those of a list, each type replaced by its index. -/
structure IsOf (ix : Indexer) (list : HandlerList) (found : HandlersFound) : Prop where
  typed : List.Forall₂ (fun x y => ix (.type x.1) = .ok y.1 ∧ x.2 = y.2) list.typed found.typed
  catchAll : found.catchAll = list.catchAll

end HandlersFound

/-- A list without handlers is not written: it would read as one that catches everything. -/
def HandlerList.IsEmpty (list : HandlerList) : Prop :=
  list.typed = [] ∧ list.catchAll = none

namespace HandlerList

variable {ix : Indexer} {list : HandlerList}

theorem signedSize_eq_ok {size : Int32} (h : list.signedSize = .ok size) :
    size.toInt =
      if list.catchAll.isSome then -(list.typed.length : Int) else list.typed.length := by
  unfold signedSize at h
  dsimp only at h
  split at h
  case isTrue => cases h
  case isFalse hlt =>
    cases h
    rw [Int32.toInt_ofInt_of_le]
    · split <;> omega
    · split <;> omega

theorem takes_typed {x : String × UInt32} {bytes : List UInt8}
    (h : encodeTyped ix x = .ok bytes) : ∃ found : UInt32 × UInt32,
      (ix (.type x.1) = .ok found.1 ∧ x.2 = found.2) ∧
        ∀ pos, Takes HandlersFound.readTyped pos bytes found := by
  obtain ⟨index, hi, h⟩ := bind_eq_ok.mp h
  obtain rfl := pure_eq_ok.mp h
  refine ⟨(index, x.2), ⟨hi, rfl⟩, fun pos => ?_⟩
  exact (Takes.uleb128 pos index).bind (Takes.uleb128 _ x.2).map

/-- **A list** reads back, wherever it stands. -/
theorem takes_handlers {bytes : List UInt8} (hne : ¬ list.IsEmpty)
    (h : list.encode ix = .ok bytes) :
    ∃ found : HandlersFound, found.IsOf ix list ∧
      ∀ pos, Takes HandlersFound.read pos bytes found := by
  obtain ⟨size, hs, h⟩ := bind_eq_ok.mp h
  obtain ⟨chunks, hc, h⟩ := bind_eq_ok.mp h
  obtain rfl := pure_eq_ok.mp h
  obtain ⟨found, hf, htakes⟩ := exists_forall₂ (mapM_eq_ok.mp hc) fun _ _ => takes_typed
  have hsize := signedSize_eq_ok hs
  have hlength := hf.length_eq
  have habs : size.toInt.natAbs = found.length := by
    rw [hsize]
    split <;> omega
  refine ⟨{ typed := found, catchAll := list.catchAll }, ⟨hf, rfl⟩, fun pos => ?_⟩
  have htyped := fun p => Takes.times htakes p
  rw [List.append_assoc]
  refine (Takes.sleb128 pos size).bind ?_
  rw [habs]
  refine (htyped _).bind ?_
  cases hall : list.catchAll with
  | none =>
    have hpos : ¬ size ≤ 0 := by
      have htypedne : list.typed ≠ [] := fun he => hne ⟨he, hall⟩
      have hlen := List.length_pos_iff.mpr htypedne
      rw [hall] at hsize
      rw [Int32.le_iff_toInt_le, hsize]
      have hzero : (0 : Int32).toInt = 0 := rfl
      rw [hzero, if_neg (by decide)]
      omega
    rw [if_neg hpos]
    exact Takes.pure _ _
  | some address =>
    have hnonpos : size ≤ 0 := by
      rw [hall] at hsize
      rw [Int32.le_iff_toInt_le, hsize]
      have hzero : (0 : Int32).toInt = 0 := rfl
      rw [hzero, if_pos Option.isSome_some]
      omega
    rw [if_pos hnonpos]
    have hbytes : (some address).toList.flatMap Leb128.encodeUnsigned =
        Leb128.encodeUnsigned address := List.append_nil _
    rw [hbytes]
    exact (Takes.uleb128 _ address).map

theorem length_encode_pos {bytes : List UInt8} (h : list.encode ix = .ok bytes) :
    0 < bytes.length := by
  obtain ⟨size, -, h⟩ := bind_eq_ok.mp h
  obtain ⟨chunks, -, h⟩ := bind_eq_ok.mp h
  obtain rfl := pure_eq_ok.mp h
  have hpos := (Leb128.isGroup_encodeSigned size).length_pos
  simp only [List.length_append]
  omega

/-! ## 4. The places of lists -/

variable {lists : List HandlerList} {start : Nat} {data : List UInt8}
  {places : List (List UInt8 × UInt16)}

/-- Lists are written one after the other, the first at `start`, and places are where they begin. -/
theorem encodeAll_cons_eq_ok (h : encodeAll ix start (list :: lists) = .ok (data, places)) :
    ∃ first more later, start < 0x10000 ∧ list.encode ix = .ok first ∧
      encodeAll ix (start + first.length) lists = .ok (more, later) ∧ data = first ++ more ∧
        places = (key list, start.toUInt16) :: later := by
  rw [encodeAll] at h
  split at h
  case isTrue => exact (throw_ne_ok (bind_eq_ok.mp h).choose_spec.1).elim
  case isFalse hlt =>
    obtain ⟨first, hf, h⟩ := bind_eq_ok.mp h
    obtain ⟨⟨more, later⟩, hm, h⟩ := bind_eq_ok.mp h
    cases pure_eq_ok.mp h
    exact ⟨first, more, later, by omega, hf, hm, rfl, rfl⟩

theorem toNat_place {n : Nat} (h : n < 0x10000) : n.toUInt16.toNat = n :=
  Text.toNat_unit h

theorem joined_of_encodeAll (h : encodeAll ix start lists = .ok (data, places)) :
    ∃ chunks, List.Forall₂ (fun list chunk => list.encode ix = .ok chunk) lists chunks ∧
      data = chunks.flatten := by
  induction lists generalizing start data places with
  | nil =>
    cases h
    exact ⟨[], .nil, rfl⟩
  | cons list rest ih =>
    obtain ⟨first, more, later, -, hf, hm, rfl, rfl⟩ := encodeAll_cons_eq_ok h
    obtain ⟨chunks, hc, rfl⟩ := ih hm
    exact ⟨first :: chunks, .cons hf hc, rfl⟩

/-- **Where a list is**: at its place stands the list of the key that was looked up. -/
theorem stands_of_lookup (h : encodeAll ix start lists = .ok (data, places)) {k : List UInt8}
    {place : UInt16} (hk : places.lookup k = some place) :
    ∃ list ∈ lists, key list = k ∧ ∃ bytes, list.encode ix = .ok bytes ∧
      ∃ offset, place.toNat = start + offset ∧ Stands data offset bytes := by
  induction lists generalizing start data places with
  | nil =>
    cases h
    cases hk
  | cons list rest ih =>
    obtain ⟨first, more, later, hlt, hf, hm, rfl, rfl⟩ := encodeAll_cons_eq_ok h
    rw [List.lookup_cons] at hk
    split at hk
    case h_1 he =>
      cases hk
      refine ⟨list, List.mem_cons_self .., (eq_of_beq he).symm, first, hf, 0, ?_, ?_⟩
      · rw [toNat_place hlt, Nat.add_zero]
      · exact .start first more
    case h_2 =>
      obtain ⟨other, ho, hkey, bytes, hb, offset, hp, hs⟩ := ih hm hk
      refine ⟨other, List.mem_cons_of_mem _ ho, hkey, bytes, hb, first.length + offset, ?_, ?_⟩
      · rw [hp, Nat.add_assoc]
      · exact Stands.trans ⟨first, [], by rw [List.append_nil], rfl⟩ hs

/-- Later lists have higher places. -/
theorem le_place_of_mem (h : encodeAll ix start lists = .ok (data, places))
    {x : List UInt8 × UInt16} (hx : x ∈ places) : start ≤ x.2.toNat := by
  induction lists generalizing start data places with
  | nil =>
    cases h
    exact (List.not_mem_nil hx).elim
  | cons list rest ih =>
    obtain ⟨first, more, later, hlt, -, hm, rfl, rfl⟩ := encodeAll_cons_eq_ok h
    rcases List.mem_cons.mp hx with rfl | hx
    · exact Nat.le_of_eq (toNat_place hlt).symm
    · exact Nat.le_trans (Nat.le_add_right ..) (ih hm hx)

/-- **Two keys with one place** are the same key. -/
theorem lookup_inj (h : encodeAll ix start lists = .ok (data, places)) {k l : List UInt8}
    {place : UInt16} (hk : places.lookup k = some place) (hl : places.lookup l = some place) :
    k = l := by
  induction lists generalizing start data places with
  | nil =>
    cases h
    cases hk
  | cons list rest ih =>
    obtain ⟨first, more, later, hlt, hf, hm, rfl, rfl⟩ := encodeAll_cons_eq_ok h
    -- a place among the later ones is above the first, because the first list is not empty
    have hlater : ∀ {k : List UInt8}, later.lookup k = some start.toUInt16 → False := by
      intro k hk
      obtain ⟨front, back, rfl, -⟩ := List.lookup_eq_some_iff.mp hk
      have hle := le_place_of_mem hm (x := (k, start.toUInt16)) (by simp)
      have hpos := length_encode_pos hf
      have hplace : start.toUInt16.toNat = start := toNat_place hlt
      dsimp only at hle
      omega
    rw [List.lookup_cons] at hk hl
    split at hk
    case h_1 he =>
      cases hk
      split at hl
      case h_1 he' => rw [eq_of_beq he, eq_of_beq he']
      case h_2 => exact (hlater hl).elim
    case h_2 =>
      split at hl
      case h_1 =>
        cases hl
        exact (hlater hk).elim
      case h_2 => exact ih hm hk hl

end HandlerList

end Dalvik
