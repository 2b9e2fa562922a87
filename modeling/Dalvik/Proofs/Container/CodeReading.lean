/-
# Code items read back

A reader that starts where a code item was written finds the register counts, the code units, and,
if there are try ranges, a table of them that begins at a multiple of four.  After the table come
the handler lists, and each range leads to the one with its own handlers.

The item itself begins at a multiple of four, its fixed fields take sixteen bytes, and each code
unit takes two.  So after an odd number of units two bytes are missing to a multiple of four, and
these are the ones that are written and that the reader passes over.

* `CodeFound.read`, `TryTable.readLists` and `HandlersFound.read` are the readers;
* `takes_codeParts` says what they find in the bytes of an item;
* `code_reads_back` is the statement for a code item that has been written to a stream.
-/
import Dalvik.Proofs.Container.HandlerLists

namespace Dalvik

/-! ## 1. The readers -/

/-- A try range as a container has it. -/
structure TryItem where
  start : UInt32
  count : UInt16
  /-- Where the handler list begins, counted from the start of the lists. -/
  handlers : UInt16
  deriving DecidableEq, Repr, Inhabited

/-- Reads a try range. -/
def TryItem.read : Reader TryItem := do
  let start ← Cursor.field UInt32
  let count ← Cursor.field UInt16
  let handlers ← Cursor.field UInt16
  return { start, count, handlers }

/-- The try ranges of a code item. -/
structure TryTable where
  /-- Where the ranges begin. -/
  place : Nat
  items : List TryItem
  /-- Where the handler lists begin. -/
  lists : Nat
  deriving DecidableEq, Repr, Inhabited

namespace TryTable

/-- Reads try ranges, from the next multiple of four on. -/
def read (count : Nat) : Reader TryTable := do
  Cursor.align 4
  let place ← Reader.position
  let items ← Reader.times count TryItem.read
  let lists ← Reader.position
  return { place, items, lists }

/-- Reads the handler lists: their number, the lists, and where they end. -/
def readLists : Reader (UInt32 × List HandlersFound × Nat) := do
  let count ← Cursor.uleb128
  let lists ← Reader.times count.toNat HandlersFound.read
  let stop ← Reader.position
  return (count, lists, stop)

end TryTable

/-- A code item as a container has it. -/
structure CodeFound where
  registers : UInt16
  ins : UInt16
  outs : UInt16
  triesSize : UInt16
  /-- The offset of debug information, zero for none. -/
  debugInfo : UInt32
  unitsSize : UInt32
  units : List UInt16
  /-- The try ranges, unless there are none. -/
  tries? : Option TryTable
  deriving DecidableEq, Repr, Inhabited

/-- **Reads a code item** up to the handler lists. -/
def CodeFound.read : Reader CodeFound := do
  let registers ← Cursor.field UInt16
  let ins ← Cursor.field UInt16
  let outs ← Cursor.field UInt16
  let triesSize ← Cursor.field UInt16
  let debugInfo ← Cursor.field UInt32
  let unitsSize ← Cursor.field UInt32
  let units ← Reader.times unitsSize.toNat (Cursor.field UInt16)
  let code : CodeFound :=
    { registers, ins, outs, triesSize, debugInfo, unitsSize, units, tries? := none }
  if triesSize == 0 then
    return code
  else
    let table ← TryTable.read triesSize.toNat
    return { code with tries? := some table }

/-! ## 2. What is to be found -/

/-- The try ranges found are the given ones: they begin at a multiple of four, have the same bounds
in the same order, and lead to lists that read as their handlers; two of them lead to the same place
exactly if they have the same handlers; and `count` lists fill the data up to its end. -/
structure TryTable.IsOf (ix : Indexer) (data : List UInt8) (tries : List ResolvedTry) (count : Nat)
    (table : TryTable) : Prop where
  aligned : table.place % 4 = 0
  ranges : table.items.map (fun item => (item.start, item.count)) =
    tries.map fun t => (t.start, t.count)
  handlers : List.Forall₂ (fun t item => ∃ found : HandlersFound, found.IsOf ix t.handlers ∧
    Reader.answerAt data (table.lists + item.handlers.toNat) HandlersFound.read = .ok found)
      tries table.items
  shared : ∀ x ∈ tries.zip table.items, ∀ y ∈ tries.zip table.items,
    x.2.handlers = y.2.handlers ↔ x.1.handlers = y.1.handlers
  lists : ∃ (leading : UInt32) (lists : List HandlersFound),
    Reader.answerAt data table.lists TryTable.readLists = .ok (leading, lists, data.length) ∧
      leading.toNat = count ∧ lists.length = count

/-- The code found has the given register counts, code units and try ranges. -/
structure CodeFound.IsOf (ix : Indexer) (data : List UInt8) (counts : RegisterCounts)
    (units : List UInt16) (tries : List ResolvedTry) (count : Nat) (code : CodeFound) : Prop where
  registers : code.registers = counts.registers
  ins : code.ins = counts.ins
  outs : code.outs = counts.outs
  triesSize : code.triesSize.toNat = tries.length
  debugInfo : code.debugInfo = 0
  unitsSize : code.unitsSize.toNat = units.length
  units : code.units = units
  noTries : tries = [] → code.tries? = none
  tries : tries ≠ [] → ∃ table : TryTable, code.tries? = some table ∧
    table.IsOf ix data tries count

/-! ## 3. Handlers of ranges -/

namespace Body

variable {b : Body}

theorem not_isEmpty_of_resolveHandlers {handlers : List CatchHandler} {list : HandlerList}
    (h : b.resolveHandlers handlers = .ok list) (hne : handlers ≠ []) : ¬ list.IsEmpty := by
  rintro ⟨htyped, hall⟩
  have hentries := entries_of_resolveHandlers h
  rw [HandlerList.entries, htyped, hall] at hentries
  exact hne (List.forall₂_nil_right_iff.mp hentries)

/-- Every range that has been resolved has a handler. -/
theorem not_isEmpty_of_resolveTries {tries : List ResolvedTry} (h : b.resolveTries = .ok tries) :
    ∀ t ∈ tries, ¬ t.handlers.IsEmpty := by
  intro t ht
  obtain ⟨range, -, hrun⟩ := (mem_of_resolveTries h).mp ht
  obtain ⟨_, _, -, -, -, -, hhandled, -, -, hhandlers⟩ := resolveTry_eq_ok.mp hrun
  exact not_isEmpty_of_resolveHandlers hhandlers hhandled

end Body

/-! ## 4. Try ranges -/

theorem ResolvedTry.takes_encodeWith {places : List (List UInt8 × UInt16)} {t : ResolvedTry}
    {bytes : List UInt8} (h : t.encodeWith places = .ok bytes) :
    ∃ item : TryItem, (item.start = t.start ∧ item.count = t.count ∧
      places.lookup (key t.handlers) = some item.handlers) ∧
        ∀ pos, Takes TryItem.read pos bytes item := by
  unfold encodeWith at h
  split at h
  case h_1 handlers hl =>
    cases h
    refine ⟨⟨t.start, t.count, handlers⟩, ⟨rfl, rfl, hl⟩, fun pos => ?_⟩
    rw [ResolvedTry.encode, List.append_assoc]
    exact (Takes.field pos t.start).bind ((Takes.field _ t.count).bind (Takes.field _ handlers).map)
  case h_2 => cases h

theorem takes_tryTable {chunks : List (List UInt8)} {items : List TryItem} {pos gap : Nat}
    (hgap : gap = (4 - pos % 4) % 4)
    (h : List.Forall₂ (fun bytes item => ∀ pos, Takes TryItem.read pos bytes item) chunks items) :
    Takes (TryTable.read items.length) pos (List.replicate gap 0 ++ chunks.flatten)
      ⟨pos + gap, items, pos + gap + chunks.flatten.length⟩ := by
  refine (Takes.align hgap).bind ?_
  rw [List.length_replicate]
  exact .position ((Takes.times h _).last (.position (.pure _ _)))

section Table

variable {ix : Indexer} {tries : List ResolvedTry} {length : Nat} {bytes : List UInt8}

/-- What follows the code units: a gap, the ranges, the number of the lists, and the lists. -/
theorem joined_triesParts (hne : tries ≠ [])
    (h : Part.joined (triesParts ix length tries) = .ok bytes) :
    ∃ (leading : UInt32) (data : List UInt8) (places : List (List UInt8 × UInt16))
      (chunks : List (List UInt8)),
      Bytes.narrow32 (Body.distinctLists tries).length = .ok leading ∧
      HandlerList.encodeAll ix (Leb128.encodeUnsigned leading).length (Body.distinctLists tries) =
        .ok (data, places) ∧
      List.Forall₂ (fun t chunk => t.encodeWith places = .ok chunk) tries chunks ∧
      bytes = List.replicate (2 * (length % 2)) 0 ++
        (chunks.flatten ++ (Leb128.encodeUnsigned leading ++ data)) := by
  have hempty : ¬ tries.isEmpty = true := by simpa using hne
  rw [triesParts, if_neg hempty] at h
  obtain ⟨_, _, hgap, hrest, rfl⟩ := Part.joined_cons_eq_ok.mp h
  obtain rfl := Except.ok.inj hgap
  obtain ⟨item, _, hitem, hnil, rfl⟩ := Part.joined_cons_eq_ok.mp hrest
  obtain rfl := Except.ok.inj hnil
  obtain ⟨_, hcount, hitem⟩ := bind_eq_ok.mp hitem
  obtain ⟨leading, hleading, rfl⟩ := map_eq_ok.mp hcount
  obtain ⟨⟨data, places⟩, hdata, hitem⟩ := bind_eq_ok.mp hitem
  obtain ⟨chunks, hchunks, hitem⟩ := bind_eq_ok.mp hitem
  obtain rfl := pure_eq_ok.mp hitem
  refine ⟨leading, data, places, chunks, hleading, hdata, mapM_eq_ok.mp hchunks, ?_⟩
  rw [List.append_nil, List.append_assoc]

/-- The lists of a table are read back, all of them and up to their end. -/
theorem takes_lists {leading : UInt32} {data : List UInt8} {places : List (List UInt8 × UInt16)}
    {lists : List HandlerList} {start pos : Nat} (hne : ∀ list ∈ lists, ¬ list.IsEmpty)
    (hleading : leading.toNat = lists.length)
    (h : HandlerList.encodeAll ix start lists = .ok (data, places)) :
    ∃ found : List HandlersFound, found.length = lists.length ∧
      Takes TryTable.readLists pos (Leb128.encodeUnsigned leading ++ data)
        (leading, found, pos + (Leb128.encodeUnsigned leading ++ data).length) := by
  obtain ⟨chunks, hc, rfl⟩ := HandlerList.joined_of_encodeAll h
  have htakes : List.Forall₂ (fun list chunk => ¬ list.IsEmpty ∧ list.encode ix = .ok chunk)
      lists chunks := (List.forall₂_and_left lists chunks).mpr ⟨hne, hc⟩
  obtain ⟨found, hof, hread⟩ := exists_forall₂ htakes fun _ _ ⟨hn, he⟩ =>
    HandlerList.takes_handlers hn he
  have hlength : leading.toNat = found.length := hleading.trans hof.length_eq
  refine ⟨found, hof.length_eq.symm, (Takes.uleb128 pos leading).bind ?_⟩
  rw [hlength, List.length_append, ← Nat.add_assoc]
  exact (Takes.times hread _).last (.position (.pure _ _))

/-- The place of a range leads to the list of its handlers. -/
theorem found_of_lookup {leading : UInt32} {data lists : List UInt8} {all : List HandlerList}
    {places : List (List UInt8 × UInt16)} {pos : Nat} {list : HandlerList} {place : UInt16}
    (hne : ∀ list ∈ all, ¬ list.IsEmpty)
    (h : HandlerList.encodeAll ix (Leb128.encodeUnsigned leading).length all = .ok (lists, places))
    (hs : Stands data pos (Leb128.encodeUnsigned leading ++ lists))
    (hl : places.lookup (key list) = some place) (hk : (key list).length < Keyed.limit) :
    ∃ found : HandlersFound, found.IsOf ix list ∧
      Reader.answerAt data (pos + place.toNat) HandlersFound.read = .ok found := by
  obtain ⟨other, ho, hkey, bytes, hb, offset, hplace, hat⟩ := HandlerList.stands_of_lookup h hl
  obtain rfl : list = other := (selfDelimiting _).injective hk hkey.symm
  obtain ⟨found, hof, hread⟩ := HandlerList.takes_handlers (hne _ ho) hb
  refine ⟨found, hof, answerAt_of_takes (hread _) ?_⟩
  rw [hplace, ← Nat.add_assoc]
  exact hs.right.trans hat

/-- **The try ranges** of a code item in data that ends with it. -/
theorem takes_triesParts {data : List UInt8} {pos : Nat} (hne : tries ≠ [])
    (hkeys : ∀ t ∈ tries, (key t.handlers).length < Keyed.limit)
    (hempty : ∀ t ∈ tries, ¬ t.handlers.IsEmpty)
    (h : Part.joined (triesParts ix length tries) = .ok bytes) (hs : Stands data pos bytes)
    (hend : pos + bytes.length = data.length) (hpos : (pos + 2 * (length % 2)) % 4 = 0) :
    ∃ (table : TryTable) (front back : List UInt8), bytes = front ++ back ∧
      Takes (TryTable.read tries.length) pos front table ∧
        table.IsOf ix data tries (Body.distinctLists tries).length := by
  obtain ⟨leading, lists, places, chunks, hleading, hlists, hchunks, rfl⟩ := joined_triesParts hne h
  obtain ⟨items, hitems, htakes⟩ := exists_forall₂ hchunks fun _ _ => ResolvedTry.takes_encodeWith
  have hgap : 2 * (length % 2) = (4 - pos % 4) % 4 := by omega
  have htable := takes_tryTable hgap htakes
  rw [← hitems.length_eq] at htable
  refine ⟨_, _, _, (List.append_assoc ..).symm, htable, ?_⟩
  have hat : Stands data (pos + 2 * (length % 2) + chunks.flatten.length)
      (Leb128.encodeUnsigned leading ++ lists) := by
    have hright := hs.right.right
    rwa [List.length_replicate] at hright
  have hstop : pos + 2 * (length % 2) + chunks.flatten.length +
      (Leb128.encodeUnsigned leading ++ lists).length = data.length := by
    simp only [List.length_append, List.length_replicate] at hend ⊢
    omega
  have hdistinct : ∀ list ∈ Body.distinctLists tries, ¬ list.IsEmpty := by
    intro list hl
    obtain ⟨t, ht, rfl⟩ := List.mem_map.mp (Body.mem_of_mem_firstLists hl)
    exact hempty t ht
  exact {
    aligned := hpos
    ranges := by
      rw [← List.forall₂_eq_eq_eq, List.forall₂_map_left_iff, List.forall₂_map_right_iff]
      exact hitems.flip.imp fun item t ⟨hstart, hcount, _⟩ => by rw [hstart, hcount]
    handlers := by
      refine ((List.forall₂_and_left tries items).mpr ⟨hkeys, hitems⟩).imp ?_
      rintro t item ⟨hk, -, -, hlookup⟩
      exact found_of_lookup hdistinct hlists hat hlookup hk
    shared := by
      rintro ⟨t, item⟩ hx ⟨u, other⟩ hy
      obtain ⟨-, -, hlookup⟩ := (List.forall₂_iff_zip.mp hitems).2 hx
      obtain ⟨-, -, hlookup'⟩ := (List.forall₂_iff_zip.mp hitems).2 hy
      constructor
      · intro (hsame : item.handlers = other.handlers)
        rw [hsame] at hlookup
        exact (selfDelimiting _).injective (hkeys t (List.of_mem_zip hx).1)
          (HandlerList.lookup_inj hlists hlookup hlookup')
      · intro (hsame : t.handlers = u.handlers)
        rw [hsame, hlookup'] at hlookup
        exact (Option.some.inj hlookup).symm
    lists := by
      obtain ⟨found, hlength, hread⟩ :=
        takes_lists hdistinct (Bytes.narrow32_eq_ok hleading) hlists
      rw [hstop] at hread
      exact ⟨leading, found, answerAt_of_takes hread hat, Bytes.narrow32_eq_ok hleading, hlength⟩ }

end Table

/-! ## 5. Code items -/

/-- The bytes of a code item up to the end of its code units. -/
def frontBytes (counts : RegisterCounts) (triesSize : UInt16) (unitsSize : UInt32)
    (units : List UInt16) : List UInt8 :=
  LittleEndian.encode counts.registers ++ (LittleEndian.encode counts.ins ++
    (LittleEndian.encode counts.outs ++ (LittleEndian.encode triesSize ++
      (LittleEndian.encode (0 : UInt32) ++ (LittleEndian.encode unitsSize ++
        units.flatMap LittleEndian.encode)))))

section Item

variable {ix : Indexer} {counts : RegisterCounts} {units : List UInt16} {tries : List ResolvedTry}
  {triesSize : UInt16} {unitsSize : UInt32} {bytes : List UInt8} {pos : Nat}

theorem length_frontBytes :
    (frontBytes counts triesSize unitsSize units).length = 16 + 2 * units.length := by
  have hhalf : LittleEndian.width UInt16 = 2 := rfl
  have hword : LittleEndian.width UInt32 = 4 := rfl
  have hunits : (units.flatMap LittleEndian.encode).length = 2 * units.length := by
    induction units with
    | nil => rfl
    | cons u rest ih =>
      rw [List.flatMap_cons, List.length_append, LittleEndian.length_encode, ih, hhalf,
        List.length_cons]
      omega
  simp only [frontBytes, List.length_append, LittleEndian.length_encode, hhalf, hword, hunits]
  omega

/-- The code as it is read before the try ranges. -/
def CodeFound.front (counts : RegisterCounts) (triesSize : UInt16) (unitsSize : UInt32)
    (units : List UInt16) : CodeFound where
  registers := counts.registers
  ins := counts.ins
  outs := counts.outs
  triesSize := triesSize
  debugInfo := 0
  unitsSize := unitsSize
  units := units
  tries? := none

/-- The fields and the units are read, and then what is left. -/
theorem takes_front {code : CodeFound} (hsize : unitsSize.toNat = units.length)
    (h : Takes (if triesSize == 0 then pure (CodeFound.front counts triesSize unitsSize units)
      else do
        let table ← TryTable.read triesSize.toNat
        return { CodeFound.front counts triesSize unitsSize units with tries? := some table })
      (pos + (frontBytes counts triesSize unitsSize units).length) bytes code) :
    Takes CodeFound.read pos (frontBytes counts triesSize unitsSize units ++ bytes) code := by
  have hunits : ∀ p, Takes (Reader.times unitsSize.toNat (Cursor.field UInt16)) p
      (units.flatMap LittleEndian.encode) units := by
    intro p
    have htimes := Takes.times_map (f := id) (fun u (_ : u ∈ units) q => Takes.field q u) p
    rwa [List.map_id, ← hsize] at htimes
  simp only [frontBytes, List.append_assoc, List.length_append] at h ⊢
  refine (Takes.field _ _).bind ((Takes.field _ _).bind ((Takes.field _ _).bind
    ((Takes.field _ _).bind ((Takes.field _ _).bind ((Takes.field _ _).bind
      ((hunits _).bind ?_))))))
  simp only [Nat.add_assoc] at h ⊢
  exact h

theorem joined_codeParts (h : Part.joined (codeParts ix counts units tries) = .ok bytes) :
    ∃ (triesSize : UInt16) (unitsSize : UInt32) (tail : List UInt8),
      triesSize.toNat = tries.length ∧ unitsSize.toNat = units.length ∧
      Part.joined (triesParts ix units.length tries) = .ok tail ∧
      bytes = frontBytes counts triesSize unitsSize units ++ tail := by
  obtain ⟨_, tail, hfront, htail, rfl⟩ := Part.joined_append_eq_ok.mp h
  obtain ⟨_, _, hcounts, hafter, rfl⟩ := Part.joined_cons_eq_ok.mp hfront
  obtain ⟨_, _, htries, hafter₁, rfl⟩ := Part.joined_cons_eq_ok.mp hafter
  obtain ⟨_, _, hdebug, hafter₂, rfl⟩ := Part.joined_cons_eq_ok.mp hafter₁
  obtain ⟨_, _, hsize, hafter₃, rfl⟩ := Part.joined_cons_eq_ok.mp hafter₂
  obtain ⟨_, _, hunits, hnil, rfl⟩ := Part.joined_cons_eq_ok.mp hafter₃
  obtain ⟨triesSize, htriesSize, rfl⟩ := map_eq_ok.mp htries
  obtain ⟨unitsSize, hunitsSize, rfl⟩ := map_eq_ok.mp hsize
  obtain rfl := Except.ok.inj hcounts
  obtain rfl := Except.ok.inj hdebug
  obtain rfl := Except.ok.inj hunits
  obtain rfl := Except.ok.inj hnil
  refine ⟨triesSize, unitsSize, tail, Bytes.narrow16_eq_ok htriesSize,
    Bytes.narrow32_eq_ok hunitsSize, htail, ?_⟩
  simp only [frontBytes, List.append_assoc, List.append_nil]

/-- **The bytes of a code item** in data that ends with it, at a multiple of four. -/
theorem takes_codeParts {data : List UInt8}
    (hkeys : ∀ t ∈ tries, (key t.handlers).length < Keyed.limit)
    (hempty : ∀ t ∈ tries, ¬ t.handlers.IsEmpty)
    (h : Part.joined (codeParts ix counts units tries) = .ok bytes) (hs : Stands data pos bytes)
    (hend : pos + bytes.length = data.length) (hpos : pos % 4 = 0) :
    ∃ code : CodeFound, Reader.answerAt data pos CodeFound.read = .ok code ∧
      code.IsOf ix data counts units tries (Body.distinctLists tries).length := by
  obtain ⟨triesSize, unitsSize, tail, htries, hunits, htail, rfl⟩ := joined_codeParts h
  by_cases hne : tries = []
  · have hzero : (triesSize == 0) = true := by
      rw [beq_iff_eq, ← UInt16.toNat_inj, htries, hne]
      rfl
    have hread : Takes CodeFound.read pos (frontBytes counts triesSize unitsSize units ++ [])
        (CodeFound.front counts triesSize unitsSize units) :=
      takes_front hunits (by rw [if_pos hzero]; exact .pure _ _)
    rw [List.append_nil] at hread
    refine ⟨_, answerAt_of_takes hread hs.left, ?_⟩
    exact {
      registers := rfl, ins := rfl, outs := rfl, triesSize := htries, debugInfo := rfl
      unitsSize := hunits, units := rfl, noTries := fun _ => rfl
      tries := fun h => (h hne).elim }
  · have hzero : ¬ (triesSize == 0) = true := by
      rw [beq_iff_eq, ← UInt16.toNat_inj, htries]
      have hlength := List.length_pos_iff.mpr hne
      have hz : (0 : UInt16).toNat = 0 := rfl
      omega
    have hright := hs.right
    rw [length_frontBytes] at hright
    rw [List.length_append, length_frontBytes, ← Nat.add_assoc] at hend
    obtain ⟨table, front, back, rfl, htable, hof⟩ :=
      takes_triesParts hne hkeys hempty htail hright hend (by omega)
    have hread : Takes CodeFound.read pos (frontBytes counts triesSize unitsSize units ++ front)
        { CodeFound.front counts triesSize unitsSize units with tries? := some table } := by
      refine takes_front hunits ?_
      rw [if_neg hzero, htries, length_frontBytes]
      exact htable.map
    rw [← List.append_assoc] at hs
    refine ⟨_, answerAt_of_takes hread hs.left, ?_⟩
    exact {
      registers := rfl, ins := rfl, outs := rfl, triesSize := htries, debugInfo := rfl
      unitsSize := hunits, units := rfl, noTries := fun h => (hne h).elim
      tries := fun _ => ⟨table, rfl, hof⟩ }

end Item

/-- The code item that has been written: what it is made of, and where it stands. -/
theorem Method.writeCode_eq_ok {ix : Indexer} {options : Container.Options} {m : Method} {b : Body}
    {s t : Stream} {offset : UInt32} (h : m.writeCode ix options b s = .ok offset t) :
    ∃ counts units tries bytes, m.registerCounts options b = .ok counts ∧
      b.encode ix = .ok units ∧ b.resolveTries = .ok tries ∧
      Part.joined (codeParts ix counts units tries) = .ok bytes ∧
      offset.toNat = s.base.toNat + (s.data.size + Bytes.padding s.data.size 4) ∧
      t.data.toList = s.data.toList ++
        (List.replicate (Bytes.padding s.data.size 4) 0 ++ bytes) := by
  obtain ⟨counts, _, hc, h⟩ := stateBind_eq_ok.mp h
  obtain ⟨hcounts, rfl⟩ := stateLift_eq_ok.mp hc
  obtain ⟨units, _, hu, h⟩ := stateBind_eq_ok.mp h
  obtain ⟨hunits, rfl⟩ := stateLift_eq_ok.mp hu
  obtain ⟨tries, _, ht, h⟩ := stateBind_eq_ok.mp h
  obtain ⟨htries, rfl⟩ := stateLift_eq_ok.mp ht
  obtain ⟨bytes, hbytes, -, hoffset, hdata⟩ := Stream.item_eq_ok h
  exact ⟨counts, units, tries, bytes, hcounts, hunits, htries, hbytes, hoffset, hdata⟩

/-- The keys of the handler lists of a body fit a buffer, as those of everything in memory do: the
counts in a key have 64 bits. -/
def Body.KeysFit (b : Body) : Prop :=
  ∀ tries, b.resolveTries = .ok tries → ∀ t ∈ tries, (key t.handlers).length < Keyed.limit

/-- **Code items read back.**  Writing a code item leaves what is in the stream and answers an
offset that is a multiple of four.  A reader that starts there finds the register counts, the code
units and the resolved try ranges of the method, and each range leads to its own handlers. -/
theorem Method.code_reads_back {ix : Indexer} {options : Container.Options} {m : Method} {b : Body}
    {s t : Stream} {offset : UInt32} (hbase : s.base.toNat % 4 = 0) (hkeys : b.KeysFit)
    (h : m.writeCode ix options b s = .ok offset t) :
    s.Extends t ∧ offset.toNat % 4 = 0 ∧ s.base.toNat + s.data.size ≤ offset.toNat ∧
      ∃ counts units tries count, m.registerCounts options b = .ok counts ∧
        b.encode ix = .ok units ∧ b.resolveTries = .ok tries ∧ b.handlerListCount = .ok count ∧
        ∃ code : CodeFound, Reader.answerAt t.data.toList (offset.toNat - s.base.toNat)
            CodeFound.read = .ok code ∧
          code.IsOf ix t.data.toList counts units tries count := by
  obtain ⟨counts, units, tries, bytes, hcounts, hunits, htries, hbytes, hoffset, hdata⟩ :=
    Method.writeCode_eq_ok h
  have hpad := Bytes.padding_four s.data.size
  have hplace : offset.toNat - s.base.toNat =
      (s.data.toList ++ List.replicate (Bytes.padding s.data.size 4) 0).length := by
    rw [List.length_append, Array.length_toList, List.length_replicate]
    omega
  have hat : Stands t.data.toList (offset.toNat - s.base.toNat) bytes := by
    refine ⟨s.data.toList ++ List.replicate (Bytes.padding s.data.size 4) 0, [], ?_, hplace.symm⟩
    rw [hdata, List.append_nil, List.append_assoc]
  have hend : offset.toNat - s.base.toNat + bytes.length = t.data.toList.length := by
    rw [hplace, hdata, ← List.append_assoc, ← List.length_append]
  obtain ⟨code, hread, hof⟩ := takes_codeParts (hkeys tries htries)
    (Body.not_isEmpty_of_resolveTries htries) hbytes hat hend (by omega)
  exact ⟨Method.appends_writeCode s offset t h, by omega, by omega, counts, units, tries, _,
    hcounts, hunits, htries, Body.handlerListCount_eq htries, code, hread, hof⟩

/-- A method without parameters. -/
def guardedMethod : Method where
  name := "run"
  proto := { returnType := "V" }
  flags := ⟨8⟩

/-- Three ranges over three instructions, of which the outer two have the same handlers. -/
def guardedBody : Body where
  slots := #[{ instruction? := some .nop }, { instruction? := some .nop },
    { instruction? := some .nop }]
  order := #[0, 1, 2]
  tries := [
    { first := ⟨2, 0⟩, last := ⟨2, 0⟩, handlers := [⟨some "LFault;", ⟨0, 0⟩⟩, ⟨none, ⟨1, 0⟩⟩] },
    { first := ⟨1, 0⟩, last := ⟨1, 0⟩, handlers := [⟨none, ⟨0, 0⟩⟩] },
    { first := ⟨0, 0⟩, last := ⟨0, 0⟩, handlers := [⟨some "LFault;", ⟨0, 0⟩⟩, ⟨none, ⟨1, 0⟩⟩] }]

theorem Method.code_reads_back_guardedBody :
    let ix := Indexer.ofTable [(.type "LFault;", 3)] false
    let s : Stream := { base := 0x70 }
    s.base.toNat % 4 = 0 ∧ guardedBody.KeysFit ∧
      ∃ offset t, guardedMethod.writeCode ix {} guardedBody s = .ok offset t ∧
        offset.toNat % 4 = 0 ∧
          ∃ counts units tries count, guardedBody.resolveTries = .ok tries ∧
            guardedBody.handlerListCount = .ok count ∧
            ∃ code : CodeFound, Reader.answerAt t.data.toList (offset.toNat - 0x70) CodeFound.read =
                .ok code ∧
              code.IsOf ix t.data.toList counts units tries count := by
  intro ix s
  have hbase : s.base.toNat % 4 = 0 := by decide
  have hkeys : guardedBody.KeysFit := by
    have hfit : guardedBody.resolveTries.toOption.all (fun tries =>
        tries.all fun t => decide ((key t.handlers).length < Keyed.limit)) = true := by
      simp only [Body.resolveTries, mergeSort_eq_sortUpTo]
      decide +kernel
    intro tries htries t ht
    rw [htries] at hfit
    exact of_decide_eq_true (List.all_eq_true.mp hfit t ht)
  have hok : (EStateM.run' (guardedMethod.writeCode ix {} guardedBody) s).isSome = true := by
    simp only [Method.writeCode, Body.resolveTries, mergeSort_eq_sortUpTo]
    decide +kernel
  cases h : guardedMethod.writeCode ix {} guardedBody s with
  | error cause t =>
    delta EStateM.run' EStateM.run at hok
    rw [h] at hok
    cases hok
  | ok offset t =>
    obtain ⟨-, haligned, -, counts, units, tries, count, -, -, htries, hcount, hread⟩ :=
      Method.code_reads_back hbase hkeys h
    exact ⟨hbase, hkeys, offset, t, rfl, haligned, counts, units, tries, count, htries, hcount,
      hread⟩

end Dalvik
