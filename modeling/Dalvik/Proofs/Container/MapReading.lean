/-
# The map list read back

A reader that follows the header to the map list finds an entry for each kind of which there are
items: how many, and where the first is.

The numbers in the list are kept by different means, some while items are written and some before.
That they are right is known of each section where it is laid; here it remains that the entries are
those of the kinds in the order of the file (`ContentsOf.mapEntries_eq`).  So the list is in order
before it is sorted: a section with items ends after it has begun, and the next one is after it.

* `MapList.seen_of_mapOf` says what entries a list of sections makes;
* `MapIs` says what the map list is to have, and `map_reads_back` that it has it.
-/
import Dalvik.Proofs.Container.Layout

namespace Dalvik

/-! ## 1. The reader -/

/-- Reads an entry of the map list. -/
def MapEntry.read : Reader MapEntry := do
  let number ← Cursor.field UInt16
  let _ ← Cursor.field UInt16
  let count ← Cursor.field UInt32
  let offset ← Cursor.field UInt32
  match ItemKind.ofCode? number.toNat with
  | some kind => return { kind, count, offset }
  | none => throw (.malformed s!"Item kind {number} is not known")

namespace MapList

/-- Reads the entries of a map list, and how many they are. -/
def readEntries : Reader (List MapEntry) := do
  let count ← Cursor.field UInt32
  Reader.times count.toNat MapEntry.read

/-- **Reads the map list** of a container. -/
def read (data : List UInt8) : Except Error (List MapEntry) := do
  let header ← Header.read data
  Reader.answerAt data header.mapOff.toNat readEntries

end MapList

theorem ItemKind.ofCode?_code (kind : ItemKind) : ofCode? kind.code.toNat = some kind := by
  cases kind <;> decide

theorem MapEntry.takes_encode (e : MapEntry) (pos : Nat) : Takes read pos e.encode e := by
  have hlast : ∀ pos, Takes (match ItemKind.ofCode? e.kind.code.toNat with
      | some kind => return { kind, count := e.count, offset := e.offset }
      | none => throw (.malformed s!"Item kind {e.kind.code} is not known")) pos [] e := by
    intro pos
    rw [ItemKind.ofCode?_code]
    exact .pure pos e
  rw [encode, List.append_assoc, List.append_assoc]
  exact (Takes.field pos e.kind.code).bind ((Takes.field _ (0 : UInt16)).bind
    ((Takes.field _ e.count).bind ((Takes.field _ e.offset).last (hlast _))))

/-- A map list is read as its entries in order. -/
theorem MapList.takes_parts {m : MapList} {data : List UInt8}
    (h : Part.joined m.parts = .ok data) (pos : Nat) : Takes readEntries pos data m.entries := by
  obtain ⟨_, _, hcount, hrest, rfl⟩ := Part.joined_cons_eq_ok.mp h
  obtain ⟨count, hn, rfl⟩ := map_eq_ok.mp hcount
  obtain ⟨chunks, hchunks, rfl⟩ := Part.joined_eq_ok.mp hrest
  rw [List.forall₂_map_left_iff] at hchunks
  have htakes : List.Forall₂ (fun chunk (e : MapEntry) => ∀ pos, Takes MapEntry.read pos chunk e)
      chunks m.entries := by
    refine hchunks.flip.imp ?_
    rintro _ e ⟨⟩
    exact e.takes_encode
  refine (Takes.field pos count).bind ?_
  rw [Bytes.narrow32_eq_ok hn]
  exact .times htakes _

/-! ## 2. What is listed -/

/-- What an entry says: of a kind there are so many items, and the first is there. -/
def MapEntry.seen (e : MapEntry) : ItemKind × Nat × UInt32 :=
  (e.kind, e.count.toNat, e.offset)

namespace MapList

/-- Adding lists what there is of a kind, and nothing of a kind without items. -/
theorem seen_of_add {m listed : MapList} {x : ItemKind × Nat × UInt32}
    (h : m.add x.1 x.2.1 x.2.2 = .ok listed) : listed.found.map MapEntry.seen =
      m.found.map MapEntry.seen ++ [x].filter (·.2.1 != 0) := by
  unfold add at h
  split at h
  case isTrue hzero =>
    cases h
    rw [List.filter_cons_of_neg (by simpa using hzero), List.filter_nil, List.append_nil]
  case isFalse hne =>
    obtain ⟨count, hcount, h⟩ := bind_eq_ok.mp h
    obtain rfl := pure_eq_ok.mp h
    have hx : (x.1, count.toNat, x.2.2) = x := by rw [Bytes.narrow32_eq_ok hcount]
    rw [List.filter_cons_of_pos (by simpa using hne), List.filter_nil, List.map_append]
    exact congrArg (fun y => m.found.map MapEntry.seen ++ [y]) hx

/-- **The entries of a list of sections** are those of the sections with items, in their order. -/
theorem seen_of_mapOf {sections : List (ItemKind × Nat × UInt32)} {m : MapList}
    (h : Catalog.mapOf sections = .ok m) :
    m.found.map MapEntry.seen = sections.filter (·.2.1 != 0) := by
  have hfold : ∀ (start : MapList), sections.foldlM
      (fun (m : MapList) x => m.add x.1 x.2.1 x.2.2) start = .ok m →
        m.found.map MapEntry.seen = start.found.map MapEntry.seen ++
          sections.filter (·.2.1 != 0) := by
    clear h
    induction sections with
    | nil =>
      rintro start ⟨⟩
      rw [List.filter_nil, List.append_nil]
    | cons x rest ih =>
      intro start h
      obtain ⟨next, hnext, hrest⟩ := bind_eq_ok.mp h
      rw [ih next hrest, seen_of_add hnext, List.append_assoc, ← List.filter_append,
        List.singleton_append]
  exact hfold {} h

end MapList

/-! ## 3. The kinds with items -/

/-- The entry of the map list for a table is that for its records. -/
theorem Table.RowsOf.entry_eq {α : Type} {t : Table} {size : Nat} {write : α → Part} {all : List α}
    {items : List Item} (h : t.RowsOf size write all items) (habsent : t.offset = 0 ↔ t.count = 0) :
    (t.count.toNat, t.offset) = (items.length, (items.map Item.offset).headD 0) := by
  have hoffset : t.offset = (items.map Item.offset).headD 0 := by
    have hrow := h.row
    have hcount := h.count
    cases items with
    | nil =>
      refine habsent.mpr ?_
      rw [← UInt32.toNat_inj, hcount]
      rfl
    | cons first rest =>
      have hfirst : first = ⟨t.offset.toNat.toUInt32, first.bytes⟩ := (List.cons.inj hrow).1
      have hsame : first.offset = t.offset.toNat.toUInt32 := congrArg Item.offset hfirst
      rw [List.map_cons, List.headD_cons, hsame, Nat.toUInt32_eq, UInt32.ofNat_toNat]
  rw [h.count, hoffset]

namespace Contents

/-- The kinds of which there are items, in the order of the file. -/
def kinds (k : Contents) : List ItemKind :=
  ItemKind.fileOrder.filter fun kind => (k kind).length != 0

theorem filter_entries (k : Contents) :
    (ItemKind.fileOrder.map k.entry).filter (·.2.1 != 0) = k.kinds.map k.entry := by
  rw [List.filter_map]
  rfl

theorem exists_of_mem_kinds {k : Contents} {kind : ItemKind} (h : kind ∈ k.kinds) :
    ∃ first rest, k kind = first :: rest ∧
      k.entry kind = (kind, (k kind).length, first.offset) := by
  have hlength := bne_iff_ne.mp (List.mem_filter.mp h).2
  have hne : k kind ≠ [] := fun hnil => hlength (congrArg List.length hnil)
  obtain ⟨first, rest, hitems⟩ := List.exists_cons_of_ne_nil hne
  refine ⟨first, rest, hitems, ?_⟩
  rw [entry, hitems]
  rfl

theorem nodup_kinds (k : Contents) : k.kinds.Nodup :=
  List.Nodup.filter _ (by decide)

end Contents

namespace Container

namespace ContentsOf

variable {options : Options} {tables : IdTables} {placed : Catalog.Placed} {bytes : List UInt8}
  {k : Contents} (hk : ContentsOf options tables placed bytes k)

include hk

/-- **The sections of a container**, as they have been added to the map list. -/
theorem mapEntries_eq (habsent : ∀ x ∈ tables.sized, x.1.offset = 0 ↔ x.1.count = 0) :
    tables.mapEntries ++ ItemKind.dataOrder.dropLast.map k.entry ++
      [(.mapList, 1, placed.map)] = ItemKind.fileOrder.map k.entry := by
  simp only [IdTables.sized, List.forall_mem_cons] at habsent
  obtain ⟨a₁, a₂, a₃, a₄, a₅, a₆, -⟩ := habsent
  have hheader : (ItemKind.header, 1, 0) = k.entry .header := by
    rw [Contents.entry, hk.header]
    rfl
  have hmap : (ItemKind.mapList, 1, placed.map) = k.entry .mapList := by
    obtain ⟨i, _, _, hitems, hoffset, -⟩ := hk.data.map
    rw [Contents.entry, hitems, ← hoffset]
    rfl
  have hrows := hk.ids
  have hentry : ∀ {kind : ItemKind} {t : Table}, (t.count.toNat, t.offset) =
      ((k kind).length, ((k kind).map Item.offset).headD 0) →
        (kind, t.count.toNat, t.offset) = k.entry kind := fun h => congrArg _ h
  have htables : tables.mapEntries = (.header :: ItemKind.idOrder).map k.entry := by
    rw [← List.forall₂_eq_eq_eq]
    exact .cons hheader (.cons (hentry (hrows.strings.entry_eq a₁))
      (.cons (hentry (hrows.types.entry_eq a₂)) (.cons (hentry (hrows.protos.entry_eq a₃))
      (.cons (hentry (hrows.fields.entry_eq a₄)) (.cons (hentry (hrows.methods.entry_eq a₅))
      (.cons (hentry (hrows.classes.entry_eq a₆)) .nil))))))
  rw [htables, hmap, List.append_assoc]
  rfl

/-- Kinds that are apart in the file have their items apart. -/
theorem apart_kinds : k.kinds.Pairwise fun a b => ∀ x ∈ k a, ∀ y ∈ k b, x.stop ≤ y.start :=
  (List.pairwise_flatMap.mp hk.between.apart).2.filter _

/-- The first item of a kind is before the others. -/
theorem first_le {kind : ItemKind} {first : Item} {rest : List Item}
    (h : k kind = first :: rest) : ∀ x ∈ k kind, first.start ≤ x.start := by
  have hfile : kind ∈ ItemKind.fileOrder := by
    by_contra hno
    rw [hk.others kind hno] at h
    cases h
  have hapart := (List.pairwise_flatMap.mp hk.between.apart).1 kind hfile
  rw [h] at hapart ⊢
  rw [List.pairwise_cons] at hapart
  rintro x (_ | ⟨_, hx⟩)
  · exact Nat.le_refl _
  · exact Nat.le_trans (Nat.le_add_right ..) (hapart.1 x hx)

theorem mem_kinds {kind : ItemKind} : kind ∈ k.kinds ↔ k kind ≠ [] := by
  rw [Contents.kinds, List.mem_filter, bne_iff_ne]
  refine ⟨fun h hnil => h.2 (congrArg List.length hnil), fun hne => ⟨?_, ?_⟩⟩
  · by_contra hno
    exact hne (hk.others kind hno)
  · rwa [Ne, List.length_eq_zero_iff]

end ContentsOf

/-! ## 4. The map list -/

/-- **The map list has what there is** in a container: an entry for each kind of which there are
items, with their number and the offset of the first, and with all of them from there on and before
the next entry. -/
structure MapIs (k : Contents) (header : Header) (entries : List MapEntry) : Prop where
  ascending : entries.Pairwise fun x y => x.offset < y.offset
  kinds : (entries.map MapEntry.kind).Nodup
  hasHeader : { kind := .header, count := 1, offset := 0 } ∈ entries
  hasMap : { kind := .mapList, count := 1, offset := header.mapOff } ∈ entries
  listed : ∀ kind, kind ∈ entries.map MapEntry.kind ↔ k kind ≠ []
  counted : ∀ e ∈ entries, e.count.toNat = (k e.kind).length
  first : ∀ e ∈ entries, (k e.kind).head?.map Item.offset = some e.offset
  within : ∀ e ∈ entries, ∀ x ∈ k e.kind, e.offset.toNat ≤ x.start
  before : entries.Pairwise fun e next => ∀ x ∈ k e.kind, x.stop ≤ next.offset.toNat

section

variable {options : Options} {tables : IdTables} {placed : Catalog.Placed} {bytes : List UInt8}
  {k : Contents} {header : Header} {entries : List MapEntry}

/-- An entry is that of its kind. -/
theorem entry_of_seen (h : entries.map MapEntry.seen = k.kinds.map k.entry) {e : MapEntry}
    (he : e ∈ entries) : e.kind ∈ k.kinds ∧ e.seen = k.entry e.kind := by
  have hmem : e.seen ∈ k.kinds.map k.entry := h ▸ List.mem_map_of_mem he
  obtain ⟨kind, hkind, hentry⟩ := List.mem_map.mp hmem
  have hsame : kind = e.kind := congrArg Prod.fst hentry
  rw [← hsame]
  exact ⟨hkind, hentry.symm⟩

/-- Entries are related if the kinds are that they are of. -/
theorem pairwise_of_seen (h : entries.map MapEntry.seen = k.kinds.map k.entry)
    {R : ItemKind × Nat × UInt32 → ItemKind × Nat × UInt32 → Prop}
    (hR : k.kinds.Pairwise fun a b => R (k.entry a) (k.entry b)) :
    entries.Pairwise fun x y => R x.seen y.seen := by
  rw [← List.pairwise_map (f := MapEntry.seen), h, List.pairwise_map]
  exact hR

theorem mapIs_of_seen (hk : ContentsOf options tables placed bytes k)
    (hmap : ∃ data, k .mapList = [⟨header.mapOff, data⟩])
    (h : entries.map MapEntry.seen = k.kinds.map k.entry) : MapIs k header entries := by
  have hbefore : k.kinds.Pairwise fun a b => ∀ x ∈ k a, x.stop ≤ (k.entry b).2.2.toNat := by
    refine hk.apart_kinds.imp_of_mem fun {a b} _ hb hab x hx => ?_
    obtain ⟨first, rest, hitems, hentry⟩ := Contents.exists_of_mem_kinds hb
    rw [hentry]
    exact hab x hx first (hitems ▸ List.mem_cons_self ..)
  have hascending : k.kinds.Pairwise fun a b => (k.entry a).2.2 < (k.entry b).2.2 := by
    refine hbefore.imp_of_mem fun {a b} ha _ hab => ?_
    obtain ⟨first, rest, hitems, hentry⟩ := Contents.exists_of_mem_kinds ha
    have hfirst : first ∈ k a := hitems ▸ List.mem_cons_self ..
    rw [hentry]
    exact UInt32.lt_iff_toNat_lt.mpr
      (Nat.lt_of_lt_of_le (Item.start_lt_stop (hk.sound a first hfirst).1) (hab first hfirst))
  have hkinds : entries.map MapEntry.kind = k.kinds := by
    have hfst := congrArg (List.map Prod.fst) h
    rw [List.map_map, List.map_map] at hfst
    exact hfst.trans (List.map_id _)
  have hsingle : ∀ {kind offset data}, k kind = [⟨offset, data⟩] →
      { kind, count := 1, offset } ∈ entries := by
    intro kind offset data hitems
    have hkind : kind ∈ entries.map MapEntry.kind := by
      rw [hkinds, hk.mem_kinds, hitems]
      exact List.cons_ne_nil _ _
    obtain ⟨e, he, rfl⟩ := List.mem_map.mp hkind
    have hentry := (entry_of_seen h he).2
    rw [Contents.entry, hitems] at hentry
    have hcount : e.count = 1 := UInt32.toNat_inj.mp (congrArg (·.2.1) hentry)
    have hoffset : e.offset = offset := congrArg (·.2.2) hentry
    rw [← hcount, ← hoffset]
    exact he
  have hfirst : ∀ e ∈ entries, ∃ first rest, k e.kind = first :: rest ∧
      first.offset = e.offset ∧ e.count.toNat = (k e.kind).length := by
    intro e he
    obtain ⟨hkind, hentry⟩ := entry_of_seen h he
    obtain ⟨first, rest, hitems, hfirst⟩ := Contents.exists_of_mem_kinds hkind
    rw [hfirst] at hentry
    exact ⟨first, rest, hitems, (congrArg (·.2.2) hentry).symm, congrArg (·.2.1) hentry⟩
  exact {
    ascending := pairwise_of_seen (R := fun a b => a.2.2 < b.2.2) h hascending
    kinds := hkinds ▸ k.nodup_kinds
    hasHeader := hsingle hk.header
    hasMap := hsingle hmap.choose_spec
    listed := fun kind => by rw [hkinds, hk.mem_kinds]
    counted := by
      intro e he
      obtain ⟨_, _, -, -, hcount⟩ := hfirst e he
      exact hcount
    first := by
      intro e he
      obtain ⟨first, rest, hitems, hoffset, -⟩ := hfirst e he
      rw [hitems, List.head?_cons, Option.map_some, hoffset]
    within := by
      intro e he x hx
      obtain ⟨first, rest, hitems, hoffset, -⟩ := hfirst e he
      rw [← hoffset]
      exact hk.first_le hitems x hx
    before := pairwise_of_seen (R := fun a b => ∀ x ∈ k a.1, x.stop ≤ b.2.2.toNat) h hbefore }

/-- Entries in the order of their offsets are not moved by sorting. -/
theorem entries_of_ascending {m : MapList} (h : m.found.Pairwise fun x y => x.offset < y.offset) :
    m.entries = m.found := by
  refine List.mergeSort_of_pairwise (h.imp fun hlt => ?_)
  rw [MapEntry.le, decide_eq_true hlt, Bool.true_or]

/-- The map list at its offset. -/
theorem read_map (hk : ContentsOf options tables placed bytes k)
    (hread : Header.read bytes = .ok header) (hmap : ∃ data, k .mapList = [⟨header.mapOff, data⟩])
    (habsent : ∀ x ∈ tables.sized, x.1.offset = 0 ↔ x.1.count = 0) :
    ∃ entries, MapList.read bytes = .ok entries ∧ MapIs k header entries := by
  obtain ⟨data, hitem⟩ := hmap
  obtain ⟨i, m, listed, hitems, hoffset, hm, hadd, hlaid⟩ := hk.data.map
  obtain rfl : ⟨header.mapOff, data⟩ = i := (List.cons.inj (hitem.symm.trans hitems)).1
  have hseen : listed.found.map MapEntry.seen = k.kinds.map k.entry := by
    rw [MapList.seen_of_add (x := (.mapList, 1, placed.map)) hadd, MapList.seen_of_mapOf hm,
      ← List.filter_append, hk.mapEntries_eq habsent, k.filter_entries]
  have his := mapIs_of_seen hk ⟨data, hitem⟩ hseen
  have hstand := hk.stand .mapList _ (hitem ▸ List.mem_singleton_self _)
  have htakes := MapList.takes_parts hlaid.bytes header.mapOff.toNat
  rw [entries_of_ascending his.ascending] at htakes
  exact ⟨listed.found, bind_eq_ok.mpr ⟨header, hread, answerAt_of_takes htakes hstand⟩, his⟩

end

/-- **The map list reads back.**  The map list of a container that is written, whatever the digests
are, has just the kinds of which there are items in the container, each with its items, in the order
of their offsets. -/
theorem map_reads_back {sign : List UInt8 → Vector UInt8 20} {sum : List UInt8 → UInt32}
    {options : Options} {classes : List ClassDef} {bytes : List UInt8}
    (h : writeWith sign sum options classes = .ok bytes) : ∃ header c placed k entries,
      Catalog.discover options classes = .ok c ∧ (∃ o, placed.catalog = c.withOffsets o) ∧
      Header.read bytes = .ok header ∧ ContentsOf options (.ofHeader header) placed bytes k ∧
      MapList.read bytes = .ok entries ∧ MapIs k header entries := by
  obtain ⟨i, header, c, placed, k, -, hc, hplaced, hread, hk, ha⟩ := arranged_of_write h
  obtain ⟨entries, hentries, his⟩ := read_map hk hread ha.map ha.absent
  exact ⟨header, c, placed, k, entries, hc, hplaced, hread, hk, hentries, his⟩

theorem map_reads_back_listenerClass : ∃ bytes, write {} [listenerClass] = .ok bytes ∧
    ∃ header c placed k entries, Catalog.discover {} [listenerClass] = .ok c ∧
      (∃ o, placed.catalog = c.withOffsets o) ∧ Header.read bytes = .ok header ∧
      ContentsOf {} (.ofHeader header) placed bytes k ∧
      MapList.read bytes = .ok entries ∧ MapIs k header entries := by
  obtain ⟨bytes, h⟩ := exists_of_isOk isOk_write_listenerClass
  exact ⟨bytes, h, map_reads_back h⟩

end Container

end Dalvik
