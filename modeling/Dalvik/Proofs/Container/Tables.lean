/-
# A catalog as a set of things

Ten tables, five of which compare their items and five the keys of their items.  Here they are seen
alike: `peers` lists what a catalog has of one kind, `Stored` says that a thing is listed, and
`Holds` that a lookup finds it, which for an item that is shared by content may be another item with
the same key.

The five pools keep maps of their places; `InStep` says that each agrees with its items, which is
what lookups rely on and what every step preserves.

* `insert_of_holds` and `insert_of_new` are all that adding one thing can do, and `insert_eq_ok`
  says that a success was one of the two;
* `insertAll_eq_ok` says what is stored and held after adding a list;
* `insertAll_succeeds` says when that cannot fail: the things come from a stock of which no kind has
  more members than there are places;
* `insertAll_new_isOk`: in a new catalog that is also the only way to succeed.
-/
import Mathlib.Data.List.Nodup
import Mathlib.Data.List.Perm.Subperm
import Dalvik.Container.Catalog
import Dalvik.Proofs.Container.Pools

namespace Dalvik

/-! ## 1. Items shared by content -/

namespace SharedItems

variable {α : Type} [Keyed α] {t u : SharedItems α} {a : α}

/-- Some item has the key of `a`. -/
def Has (t : SharedItems α) (a : α) : Prop :=
  ∃ b ∈ t.items, key b = key a

theorem index?_isSome : (t.index? a).isSome = true ↔ t.Has a := by
  simp [index?, Has, items, List.findIdx?_isSome]

theorem intern_of_has (h : t.Has a) : ∃ place, t.intern a = .ok (t, place) := by
  obtain ⟨place, hp⟩ := Option.isSome_iff_exists.mp (index?_isSome.mpr h)
  exact ⟨place, by simp [intern, hp]⟩

theorem index?_of_not_has (h : ¬ t.Has a) : t.index? a = none := by
  rw [← Option.not_isSome_iff_eq_none]
  exact fun hs => h (index?_isSome.mp hs)

theorem intern_of_not_has (h : ¬ t.Has a) (hf : t.frozen = false)
    (hl : t.items.length < 0x100000000) :
    t.intern a = .ok ({ t with entries := t.entries ++ [(a, 0)] }, t.entries.length) := by
  rw [items, List.length_map] at hl
  simp only [intern, index?_of_not_has h, hf, Bytes.narrow32_of_lt hl]
  rfl

theorem intern_eq_ok {place : Nat} (hn : ¬ t.Has a) (h : t.intern a = .ok (u, place)) :
    t.frozen = false ∧ t.items.length < 0x100000000 := by
  simp only [intern, index?_of_not_has hn] at h
  split at h
  case isTrue => cases h
  case isFalse hf =>
    obtain ⟨n, hn, -⟩ := bind_eq_ok.mp h
    refine ⟨by simpa using hf, ?_⟩
    by_contra hl
    rw [items, List.length_map] at hl
    simp [Bytes.narrow32, hl] at hn

/-- A shared item that has an offset has it because of an item with the same key. -/
theorem mem_of_offsetOf {offset : UInt32} (h : t.offsetOf a = .ok offset) :
    ∃ b, (b, offset) ∈ t.entries ∧ key b = key a := by
  unfold offsetOf at h
  split at h
  case h_1 found ho =>
    cases h
    obtain ⟨place, hp, ho⟩ := Option.bind_eq_some_iff.mp ho
    obtain ⟨hlt, hkey, -⟩ := List.findIdx?_eq_some_iff_getElem.mp hp
    rw [offsetAt?, offsets, List.getElem?_map, List.getElem?_eq_getElem hlt, Option.map_some,
      Option.some.injEq] at ho
    refine ⟨t.entries[place].1, ?_, beq_iff_eq.mp hkey⟩
    rw [← ho]
    exact List.getElem_mem hlt
  case h_2 => cases h

end SharedItems

/-! ## 2. Kinds of things -/

namespace Entity

/-- The number of the table that a thing belongs in. -/
def kind : Entity → Nat
  | string _ => 0
  | type _ => 1
  | proto _ => 2
  | field _ => 3
  | method _ => 4
  | typeList _ => 5
  | encodedArray _ => 6
  | annotationItem _ => 7
  | annotationSet _ => 8
  | setList _ => 9

/-- Things that a catalog does not tell apart: equal ones, and items with the same key. -/
inductive Like : Entity → Entity → Prop
  | refl (e : Entity) : Like e e
  | typeList {a b : List String} (h : key a = key b) : Like (.typeList a) (.typeList b)
  | encodedArray {a b : List EncodedValue} (h : key a = key b) :
    Like (.encodedArray a) (.encodedArray b)
  | annotationItem {a b : Annotation} (h : key a = key b) :
    Like (.annotationItem a) (.annotationItem b)
  | annotationSet {a b : List Annotation} (h : key a = key b) :
    Like (.annotationSet a) (.annotationSet b)
  | setList {a b : List (List Annotation)} (h : key a = key b) : Like (.setList a) (.setList b)

theorem Like.trans {a b d : Entity} (h : Like a b) (h' : Like b d) : Like a d := by
  cases h with
  | refl => exact h'
  | typeList h => cases h' with
    | refl => exact .typeList h
    | typeList h' => exact .typeList (h.trans h')
  | encodedArray h => cases h' with
    | refl => exact .encodedArray h
    | encodedArray h' => exact .encodedArray (h.trans h')
  | annotationItem h => cases h' with
    | refl => exact .annotationItem h
    | annotationItem h' => exact .annotationItem (h.trans h')
  | annotationSet h => cases h' with
    | refl => exact .annotationSet h
    | annotationSet h' => exact .annotationSet (h.trans h')
  | setList h => cases h' with
    | refl => exact .setList h
    | setList h' => exact .setList (h.trans h')

theorem Like.symm {a b : Entity} (h : Like a b) : Like b a := by
  cases h with
  | refl => exact .refl _
  | typeList h => exact .typeList h.symm
  | encodedArray h => exact .encodedArray h.symm
  | annotationItem h => exact .annotationItem h.symm
  | annotationSet h => exact .annotationSet h.symm
  | setList h => exact .setList h.symm

theorem Like.kind_eq {a b : Entity} (h : Like a b) : a.kind = b.kind := by
  cases h <;> rfl

/-- Each two of some things are told apart by a catalog. -/
def Apart (things : List Entity) : Prop :=
  things.Pairwise fun a b => ¬ Like a b

theorem Apart.nodup {things : List Entity} (h : Apart things) : things.Nodup :=
  h.imp fun {a b} hn he => by
    rw [he] at hn
    exact hn (.refl b)

end Entity

namespace Catalog

/-! ## 3. What a catalog has -/

/-- What a catalog has of the kind of a thing. -/
def peers (c : Catalog) : Entity → List Entity
  | .string _ => c.strings.items.map .string
  | .type _ => c.types.items.map .type
  | .proto _ => c.protos.items.map .proto
  | .field _ => c.fields.items.map .field
  | .method _ => c.methods.items.map .method
  | .typeList _ => c.typeLists.items.map .typeList
  | .encodedArray _ => c.encodedArrays.items.map .encodedArray
  | .annotationItem _ => c.annotations.items.map .annotationItem
  | .annotationSet _ => c.annotationSets.items.map .annotationSet
  | .setList _ => c.setLists.items.map .setList

/-- Whether the table of a thing is frozen. -/
def isFrozen (c : Catalog) : Entity → Bool
  | .string _ => c.strings.frozen
  | .type _ => c.types.frozen
  | .proto _ => c.protos.frozen
  | .field _ => c.fields.frozen
  | .method _ => c.methods.frozen
  | .typeList _ => c.typeLists.frozen
  | .encodedArray _ => c.encodedArrays.frozen
  | .annotationItem _ => c.annotations.frozen
  | .annotationSet _ => c.annotationSets.frozen
  | .setList _ => c.setLists.frozen

/-- A thing that the catalog has. -/
def Stored (c : Catalog) (e : Entity) : Prop :=
  e ∈ c.peers e

/-- A thing that a lookup finds. -/
def Holds (c : Catalog) (e : Entity) : Prop :=
  ∃ x, c.Stored x ∧ x.Like e

theorem Stored.holds {c : Catalog} {e : Entity} (h : c.Stored e) : c.Holds e :=
  ⟨e, h, .refl e⟩

theorem Holds.like {c : Catalog} {e x : Entity} (h : c.Holds e) (hx : e.Like x) : c.Holds x := by
  obtain ⟨y, hy, hl⟩ := h
  exact ⟨y, hy, hl.trans hx⟩

section Lookup

variable {c : Catalog}

@[simp] theorem stored_string {s : String} : c.Stored (.string s) ↔ s ∈ c.strings.items := by
  simp [Stored, peers]

@[simp] theorem stored_type {d : String} : c.Stored (.type d) ↔ d ∈ c.types.items := by
  simp [Stored, peers]

@[simp] theorem stored_proto {p : Proto} : c.Stored (.proto p) ↔ p ∈ c.protos.items := by
  simp [Stored, peers]

@[simp] theorem stored_field {f : FieldRef} : c.Stored (.field f) ↔ f ∈ c.fields.items := by
  simp [Stored, peers]

@[simp] theorem stored_method {m : MethodRef} : c.Stored (.method m) ↔ m ∈ c.methods.items := by
  simp [Stored, peers]

@[simp] theorem stored_typeList {l : List String} :
    c.Stored (.typeList l) ↔ l ∈ c.typeLists.items := by
  simp [Stored, peers]

@[simp] theorem stored_encodedArray {l : List EncodedValue} :
    c.Stored (.encodedArray l) ↔ l ∈ c.encodedArrays.items := by
  simp [Stored, peers]

@[simp] theorem stored_annotationItem {a : Annotation} :
    c.Stored (.annotationItem a) ↔ a ∈ c.annotations.items := by
  simp [Stored, peers]

@[simp] theorem stored_annotationSet {s : List Annotation} :
    c.Stored (.annotationSet s) ↔ s ∈ c.annotationSets.items := by
  simp [Stored, peers]

@[simp] theorem stored_setList {l : List (List Annotation)} :
    c.Stored (.setList l) ↔ l ∈ c.setLists.items := by
  simp [Stored, peers]

/-- The kinds that are told apart by more than a key. -/
def Pooled : Entity → Prop
  | .string _ | .type _ | .proto _ | .field _ | .method _ => True
  | _ => False

theorem Holds.stored {e : Entity} (h : c.Holds e) (he : Pooled e) : c.Stored e := by
  obtain ⟨x, hx, hl⟩ := h
  cases hl with
  | refl => exact hx
  | _ => cases he

/-- A lookup among items that are shared by content. -/
theorem holds_shared {α : Type} [Keyed α] {t : SharedItems α} {item : α → Entity}
    (hs : ∀ b, c.Stored (item b) ↔ b ∈ t.items)
    (hk : ∀ {a b}, key b = key a → (item b).Like (item a))
    (hl : ∀ {x a}, x.Like (item a) → ∃ b, x = item b ∧ key b = key a) {a : α} :
    c.Holds (item a) ↔ t.Has a := by
  constructor
  · rintro ⟨x, hx, h⟩
    obtain ⟨b, rfl, hb⟩ := hl h
    exact ⟨b, (hs b).mp hx, hb⟩
  · rintro ⟨b, hb, h⟩
    exact ⟨item b, (hs b).mpr hb, hk h⟩

theorem holds_typeList {l : List String} : c.Holds (.typeList l) ↔ c.typeLists.Has l :=
  holds_shared (fun _ => stored_typeList) .typeList fun h => by
    cases h with
    | refl => exact ⟨_, rfl, rfl⟩
    | typeList h => exact ⟨_, rfl, h⟩

theorem holds_encodedArray {l : List EncodedValue} :
    c.Holds (.encodedArray l) ↔ c.encodedArrays.Has l :=
  holds_shared (fun _ => stored_encodedArray) .encodedArray fun h => by
    cases h with
    | refl => exact ⟨_, rfl, rfl⟩
    | encodedArray h => exact ⟨_, rfl, h⟩

theorem holds_annotationItem {a : Annotation} :
    c.Holds (.annotationItem a) ↔ c.annotations.Has a :=
  holds_shared (fun _ => stored_annotationItem) .annotationItem fun h => by
    cases h with
    | refl => exact ⟨_, rfl, rfl⟩
    | annotationItem h => exact ⟨_, rfl, h⟩

theorem holds_annotationSet {s : List Annotation} :
    c.Holds (.annotationSet s) ↔ c.annotationSets.Has s :=
  holds_shared (fun _ => stored_annotationSet) .annotationSet fun h => by
    cases h with
    | refl => exact ⟨_, rfl, rfl⟩
    | annotationSet h => exact ⟨_, rfl, h⟩

theorem holds_setList {l : List (List Annotation)} : c.Holds (.setList l) ↔ c.setLists.Has l :=
  holds_shared (fun _ => stored_setList) .setList fun h => by
    cases h with
    | refl => exact ⟨_, rfl, rfl⟩
    | setList h => exact ⟨_, rfl, h⟩

end Lookup

/-! ## 4. Adding one thing -/

theorem kind_of_mem_peers {c : Catalog} {e x : Entity} (h : x ∈ c.peers e) : x.kind = e.kind := by
  cases e <;> obtain ⟨a, -, rfl⟩ := List.mem_map.mp h <;> rfl

theorem peers_of_kind {c : Catalog} {e x : Entity} (h : x.kind = e.kind) :
    c.peers x = c.peers e := by
  cases e <;> cases x <;> first | rfl | cases h

/-- Each pool and the map of its places agree. -/
structure InStep (c : Catalog) : Prop where
  strings : c.strings.InStep
  types : c.types.InStep
  protos : c.protos.InStep
  fields : c.fields.InStep
  methods : c.methods.InStep

theorem insert_of_holds {c : Catalog} {e : Entity} (hc : c.InStep) (h : c.Holds e) :
    c.insert e = .ok c := by
  cases e with
  | string => simp [insert, hc.strings.add_of_mem (stored_string.mp (h.stored trivial))]
  | type => simp [insert, hc.types.add_of_mem (stored_type.mp (h.stored trivial))]
  | proto => simp [insert, hc.protos.add_of_mem (stored_proto.mp (h.stored trivial))]
  | field => simp [insert, hc.fields.add_of_mem (stored_field.mp (h.stored trivial))]
  | method => simp [insert, hc.methods.add_of_mem (stored_method.mp (h.stored trivial))]
  | typeList =>
    obtain ⟨place, hp⟩ := SharedItems.intern_of_has (holds_typeList.mp h)
    simp [insert, hp]
  | encodedArray =>
    obtain ⟨place, hp⟩ := SharedItems.intern_of_has (holds_encodedArray.mp h)
    simp [insert, hp]
  | annotationItem =>
    obtain ⟨place, hp⟩ := SharedItems.intern_of_has (holds_annotationItem.mp h)
    simp [insert, hp]
  | annotationSet =>
    obtain ⟨place, hp⟩ := SharedItems.intern_of_has (holds_annotationSet.mp h)
    simp [insert, hp]
  | setList =>
    obtain ⟨place, hp⟩ := SharedItems.intern_of_has (holds_setList.mp h)
    simp [insert, hp]

/-- The catalog after adding one thing that it does not hold. -/
def grow (c : Catalog) : Entity → Catalog
  | .string s => { c with strings := c.strings.grown s c.strings.items.length.toUInt32 }
  | .type d => { c with types := c.types.grown d c.types.items.length.toUInt32 }
  | .proto p => { c with protos := c.protos.grown p c.protos.items.length.toUInt32 }
  | .field f => { c with fields := c.fields.grown f c.fields.items.length.toUInt32 }
  | .method m => { c with methods := c.methods.grown m c.methods.items.length.toUInt32 }
  | .typeList l => { c with typeLists.entries := c.typeLists.entries ++ [(l, 0)] }
  | .encodedArray l => { c with encodedArrays.entries := c.encodedArrays.entries ++ [(l, 0)] }
  | .annotationItem a => { c with annotations.entries := c.annotations.entries ++ [(a, 0)] }
  | .annotationSet s => { c with annotationSets.entries := c.annotationSets.entries ++ [(s, 0)] }
  | .setList l => { c with setLists.entries := c.setLists.entries ++ [(l, 0)] }

theorem peers_grow (c : Catalog) (e x : Entity) :
    (c.grow e).peers x = if x.kind = e.kind then c.peers x ++ [e] else c.peers x := by
  cases e <;> cases x <;> simp [peers, grow, Pool.grown, Entity.kind, SharedItems.items]

theorem isFrozen_grow (c : Catalog) (e x : Entity) : (c.grow e).isFrozen x = c.isFrozen x := by
  cases e <;> cases x <;> rfl

theorem classes_grow (c : Catalog) (e : Entity) : (c.grow e).classes = c.classes := by
  cases e <;> rfl

theorem insert_of_new {c : Catalog} {e : Entity} (hc : c.InStep) (h : ¬ c.Holds e)
    (hf : c.isFrozen e = false) (hl : (c.peers e).length < 0x100000000) :
    c.insert e = .ok (c.grow e) := by
  have hs : ¬ c.Stored e := fun hs => h hs.holds
  cases e <;> rw [peers, List.length_map] at hl
  case string s =>
    rw [insert, hc.strings.add_of_not_mem (fun hm => hs (stored_string.mpr hm)) hf hl]
    rfl
  case type d =>
    rw [insert, hc.types.add_of_not_mem (fun hm => hs (stored_type.mpr hm)) hf hl]
    rfl
  case proto p =>
    rw [insert, hc.protos.add_of_not_mem (fun hm => hs (stored_proto.mpr hm)) hf hl]
    rfl
  case field f =>
    rw [insert, hc.fields.add_of_not_mem (fun hm => hs (stored_field.mpr hm)) hf hl]
    rfl
  case method m =>
    rw [insert, hc.methods.add_of_not_mem (fun hm => hs (stored_method.mpr hm)) hf hl]
    rfl
  case typeList l =>
    rw [insert, SharedItems.intern_of_not_has (fun ht => h (holds_typeList.mpr ht)) hf hl]
    rfl
  case encodedArray l =>
    rw [insert, SharedItems.intern_of_not_has (fun ht => h (holds_encodedArray.mpr ht)) hf hl]
    rfl
  case annotationItem a =>
    rw [insert, SharedItems.intern_of_not_has (fun ht => h (holds_annotationItem.mpr ht)) hf hl]
    rfl
  case annotationSet s =>
    rw [insert, SharedItems.intern_of_not_has (fun ht => h (holds_annotationSet.mpr ht)) hf hl]
    rfl
  case setList l =>
    rw [insert, SharedItems.intern_of_not_has (fun ht => h (holds_setList.mpr ht)) hf hl]
    rfl

/-- A new thing is only added to a table that is open and not full. -/
theorem room_of_insert {c c' : Catalog} {e : Entity} (hc : c.InStep) (h : ¬ c.Holds e)
    (hi : c.insert e = .ok c') : c.isFrozen e = false ∧ (c.peers e).length < 0x100000000 := by
  have hs : ¬ c.Stored e := fun hs => h hs.holds
  cases e <;> rw [peers, List.length_map] <;> obtain ⟨r, hr, -⟩ := bind_eq_ok.mp hi
  case string s => exact hc.strings.add_eq_ok (fun hm => hs (stored_string.mpr hm)) hr
  case type d => exact hc.types.add_eq_ok (fun hm => hs (stored_type.mpr hm)) hr
  case proto p => exact hc.protos.add_eq_ok (fun hm => hs (stored_proto.mpr hm)) hr
  case field f => exact hc.fields.add_eq_ok (fun hm => hs (stored_field.mpr hm)) hr
  case method m => exact hc.methods.add_eq_ok (fun hm => hs (stored_method.mpr hm)) hr
  case typeList l => exact SharedItems.intern_eq_ok (fun ht => h (holds_typeList.mpr ht)) hr
  case encodedArray l => exact SharedItems.intern_eq_ok (fun ht => h (holds_encodedArray.mpr ht)) hr
  case annotationItem a =>
    exact SharedItems.intern_eq_ok (fun ht => h (holds_annotationItem.mpr ht)) hr
  case annotationSet s =>
    exact SharedItems.intern_eq_ok (fun ht => h (holds_annotationSet.mpr ht)) hr
  case setList l => exact SharedItems.intern_eq_ok (fun ht => h (holds_setList.mpr ht)) hr

theorem apart_grow {c : Catalog} {e : Entity} (hc : ∀ x, Entity.Apart (c.peers x))
    (h : ¬ c.Holds e) (x : Entity) : Entity.Apart ((c.grow e).peers x) := by
  rw [peers_grow]
  split
  case isTrue hk =>
    rw [peers_of_kind hk]
    refine List.pairwise_append.mpr ⟨hc e, List.pairwise_singleton _ _, fun y hy z hz hl => ?_⟩
    rw [List.mem_singleton.mp hz] at hl
    refine h ⟨y, ?_, hl⟩
    rwa [Stored, peers_of_kind (kind_of_mem_peers hy)]
  case isFalse => exact hc x

/-- A new thing of a pool gets a place in the map as well. -/
theorem InStep.grow {c : Catalog} {e : Entity} (hc : c.InStep) (h : ¬ c.Holds e)
    (hl : (c.peers e).length < 0x100000000) : (c.grow e).InStep := by
  have hs : ¬ c.Stored e := fun hs => h hs.holds
  cases e <;> rw [peers, List.length_map] at hl
  case string s =>
    exact { hc with strings := hc.strings.grown (fun hm => hs (stored_string.mpr hm)) hl }
  case type d => exact { hc with types := hc.types.grown (fun hm => hs (stored_type.mpr hm)) hl }
  case proto p =>
    exact { hc with protos := hc.protos.grown (fun hm => hs (stored_proto.mpr hm)) hl }
  case field f =>
    exact { hc with fields := hc.fields.grown (fun hm => hs (stored_field.mpr hm)) hl }
  case method m =>
    exact { hc with methods := hc.methods.grown (fun hm => hs (stored_method.mpr hm)) hl }
  all_goals exact ⟨hc.strings, hc.types, hc.protos, hc.fields, hc.methods⟩

/-- **Adding one thing** changes nothing if it is held, and else makes it the last of its kind. -/
theorem insert_eq_ok {c c' : Catalog} {e : Entity} (hc : c.InStep) (h : c.insert e = .ok c') :
    c.Holds e ∧ c' = c ∨ ¬ c.Holds e ∧ c' = c.grow e := by
  by_cases he : c.Holds e
  · rw [insert_of_holds hc he, Except.ok.injEq] at h
    exact .inl ⟨he, h.symm⟩
  · obtain ⟨hf, hl⟩ := room_of_insert hc he h
    rw [insert_of_new hc he hf hl, Except.ok.injEq] at h
    exact .inr ⟨he, h.symm⟩

theorem InStep.insert {c c' : Catalog} {e : Entity} (hc : c.InStep) (h : c.insert e = .ok c') :
    c'.InStep := by
  rcases insert_eq_ok hc h with ⟨-, rfl⟩ | ⟨hn, rfl⟩
  · exact hc
  · exact hc.grow hn (room_of_insert hc hn h).2

theorem stored_grow {c : Catalog} {e x : Entity} :
    (c.grow e).Stored x ↔ c.Stored x ∨ x = e := by
  rw [Stored, peers_grow]
  split
  case isTrue h => rw [List.mem_append, List.mem_singleton, Stored]
  case isFalse h => exact ⟨.inl, fun hx => hx.resolve_right fun he => h (he ▸ rfl)⟩

/-- What is held after adding a thing. -/
theorem holds_of_insert {c c' : Catalog} {e x : Entity} (hc : c.InStep)
    (h : c.insert e = .ok c') : c'.Holds x ↔ c.Holds x ∨ e.Like x := by
  rcases insert_eq_ok hc h with ⟨he, rfl⟩ | ⟨-, rfl⟩
  · exact ⟨.inl, fun hx => hx.elim id he.like⟩
  · constructor
    · rintro ⟨y, hy, hl⟩
      rcases stored_grow.mp hy with hy | rfl
      · exact .inl ⟨y, hy, hl⟩
      · exact .inr hl
    · rintro (⟨y, hy, hl⟩ | hl)
      · exact ⟨y, stored_grow.mpr (.inl hy), hl⟩
      · exact ⟨e, stored_grow.mpr (.inr rfl), hl⟩

theorem stored_of_insert {c c' : Catalog} {e x : Entity} (hc : c.InStep)
    (h : c.insert e = .ok c') (hx : c'.Stored x) : c.Stored x ∨ x = e := by
  rcases insert_eq_ok hc h with ⟨-, rfl⟩ | ⟨-, rfl⟩
  · exact .inl hx
  · exact stored_grow.mp hx

theorem classes_of_insert {c c' : Catalog} {e : Entity} (hc : c.InStep)
    (h : c.insert e = .ok c') : c'.classes = c.classes := by
  rcases insert_eq_ok hc h with ⟨-, rfl⟩ | ⟨-, rfl⟩
  · rfl
  · exact classes_grow c e

/-! ## 5. Adding many things -/

/-- Adds things in order; without the first that cannot be added, none is. -/
def insertAll (c : Catalog) (entities : List Entity) : Except Error Catalog :=
  entities.foldlM insert c

theorem insertAll_cons (c : Catalog) (e : Entity) (rest : List Entity) :
    c.insertAll (e :: rest) = c.insert e >>= (·.insertAll rest) :=
  List.foldlM_cons

theorem insertAll_append (c : Catalog) (first rest : List Entity) :
    c.insertAll (first ++ rest) = c.insertAll first >>= (·.insertAll rest) :=
  List.foldlM_append

theorem insertAll_of_holds {c : Catalog} {entities : List Entity} (hc : c.InStep)
    (h : ∀ e ∈ entities, c.Holds e) : c.insertAll entities = .ok c := by
  induction entities with
  | nil => rfl
  | cons e rest ih =>
    rw [insertAll_cons, insert_of_holds hc (h e (List.mem_cons_self ..))]
    exact ih fun x hx => h x (List.mem_cons_of_mem _ hx)

theorem InStep.insertAll {c c' : Catalog} {entities : List Entity} (hc : c.InStep)
    (h : c.insertAll entities = .ok c') : c'.InStep := by
  induction entities generalizing c with
  | nil =>
    cases h
    exact hc
  | cons e rest ih =>
    rw [insertAll_cons] at h
    obtain ⟨d, hd, hrest⟩ := bind_eq_ok.mp h
    exact ih (hc.insert hd) hrest

/-- **Adding many things** stores nothing else, and all of them are held. -/
theorem insertAll_eq_ok {c c' : Catalog} {entities : List Entity} (hc : c.InStep)
    (h : c.insertAll entities = .ok c') :
    (∀ x, c'.Stored x → c.Stored x ∨ x ∈ entities) ∧
    (∀ x, c'.Holds x ↔ c.Holds x ∨ ∃ e ∈ entities, e.Like x) ∧ c'.classes = c.classes := by
  induction entities generalizing c with
  | nil =>
    cases h
    simp
  | cons e rest ih =>
    rw [insertAll_cons] at h
    obtain ⟨d, hd, hrest⟩ := bind_eq_ok.mp h
    obtain ⟨hs, hh, hcl⟩ := ih (hc.insert hd) hrest
    refine ⟨fun x hx => ?_, fun x => ?_, hcl.trans (classes_of_insert hc hd)⟩
    · rcases hs x hx with hx | hx
      · rcases stored_of_insert hc hd hx with hx | rfl
        · exact .inl hx
        · exact .inr (List.mem_cons_self ..)
      · exact .inr (List.mem_cons_of_mem _ hx)
    · rw [hh, holds_of_insert hc hd, or_assoc, List.exists_mem_cons_iff]

/-- No thing is added twice, nor another that is taken for it. -/
theorem apart_of_insertAll {c c' : Catalog} {entities : List Entity} (hc : c.InStep)
    (ha : ∀ x, Entity.Apart (c.peers x)) (h : c.insertAll entities = .ok c') (x : Entity) :
    Entity.Apart (c'.peers x) := by
  induction entities generalizing c with
  | nil =>
    cases h
    exact ha x
  | cons e rest ih =>
    rw [insertAll_cons] at h
    obtain ⟨d, hd, hrest⟩ := bind_eq_ok.mp h
    refine ih (hc.insert hd) ?_ hrest
    rcases insert_eq_ok hc hd with ⟨-, rfl⟩ | ⟨hn, rfl⟩
    · exact ha
    · exact apart_grow ha hn

/-- No kind gets more members than there are places. -/
theorem length_peers_of_insertAll {c c' : Catalog} {entities : List Entity} (hc : c.InStep)
    (hl : ∀ x, (c.peers x).length ≤ 0x100000000) (h : c.insertAll entities = .ok c')
    (x : Entity) : (c'.peers x).length ≤ 0x100000000 := by
  induction entities generalizing c with
  | nil =>
    cases h
    exact hl x
  | cons e rest ih =>
    rw [insertAll_cons] at h
    obtain ⟨d, hd, hrest⟩ := bind_eq_ok.mp h
    refine ih (hc.insert hd) (fun y => ?_) hrest
    rcases insert_eq_ok hc hd with ⟨-, rfl⟩ | ⟨hn, rfl⟩
    · exact hl y
    · obtain ⟨-, hlt⟩ := room_of_insert hc hn hd
      rw [peers_grow]
      split
      case isTrue hk =>
        rw [peers_of_kind hk, List.length_append, List.length_singleton]
        exact hlt
      case isFalse => exact hl y

/-! ## 6. When adding cannot fail -/

/-- No kind of thing in a stock has more members than a table has places. -/
def Fits (stock : Entity → Prop) : Prop :=
  ∀ (e : Entity) (peers : List Entity), peers.Nodup → (∀ x ∈ peers, x.kind = e.kind ∧ stock x) →
    peers.length ≤ 0x100000000

/-- No kind of thing in a stock has more members, as a catalog tells them apart, than a table has
places. -/
def Room (stock : Entity → Prop) : Prop :=
  ∀ (e : Entity) (things : List Entity), Entity.Apart things →
    (∀ x ∈ things, x.kind = e.kind ∧ stock x) → things.length ≤ 0x100000000

theorem Fits.room {stock : Entity → Prop} (h : Fits stock) : Room stock :=
  fun e things ha hs => h e things ha.nodup hs

/-- An open catalog of things from a stock, each of which it tells apart. -/
structure Within (stock : Entity → Prop) (c : Catalog) : Prop where
  stored : ∀ x, c.Stored x → stock x
  apart : ∀ x, Entity.Apart (c.peers x)
  unfrozen : ∀ x, c.isFrozen x = false
  inStep : c.InStep

variable {stock : Entity → Prop}

/-- There is a place for what is new. -/
theorem Within.room {c : Catalog} {e : Entity} (hc : c.Within stock) (hs : Room stock)
    (he : stock e) (hn : ¬ c.Holds e) : (c.peers e).length < 0x100000000 := by
  have h := hs e ((c.grow e).peers e) (apart_grow hc.apart hn e) fun x hx => by
    have hk := kind_of_mem_peers hx
    refine ⟨hk, ?_⟩
    have hx : (c.grow e).Stored x := by rwa [Stored, peers_of_kind hk]
    exact (stored_grow.mp hx).elim (hc.stored x) fun h => h ▸ he
  rw [peers_grow, if_pos rfl, List.length_append, List.length_singleton] at h
  exact h

theorem Within.grow {c : Catalog} {e : Entity} (hc : c.Within stock) (hs : Room stock)
    (he : stock e) (hn : ¬ c.Holds e) : (c.grow e).Within stock where
  stored x hx := (stored_grow.mp hx).elim (hc.stored x) fun h => h ▸ he
  apart := apart_grow hc.apart hn
  unfrozen x := (isFrozen_grow c e x).trans (hc.unfrozen x)
  inStep := hc.inStep.grow hn (hc.room hs he hn)

/-- **Adding from a stock for which there is room** succeeds. -/
theorem insertAll_succeeds {c : Catalog} {entities : List Entity} (hs : Room stock)
    (hc : c.Within stock) (he : ∀ e ∈ entities, stock e) :
    ∃ c', c.insertAll entities = .ok c' ∧ c'.Within stock := by
  induction entities generalizing c with
  | nil => exact ⟨c, rfl, hc⟩
  | cons e rest ih =>
    have hrest := fun x hx => he x (List.mem_cons_of_mem _ hx)
    have hse := he e (List.mem_cons_self ..)
    rw [insertAll_cons]
    by_cases h : c.Holds e
    · rw [insert_of_holds hc.inStep h]
      exact ih hc hrest
    · rw [insert_of_new hc.inStep h (hc.unfrozen e) (hc.room hs hse h)]
      exact ih (hc.grow hs hse h) hrest

/-- For what is held there was room: things that are told apart are held as different things. -/
theorem room_of_holds {c : Catalog} (hc : ∀ x, (c.peers x).length ≤ 0x100000000)
    (hh : ∀ x, stock x → c.Holds x) : Room stock := by
  intro e things ha hs
  have hfound : ∀ x ∈ things, ∃ y ∈ c.peers e, y.Like x := by
    intro x hx
    obtain ⟨y, hy, hl⟩ := hh x (hs x hx).2
    refine ⟨y, ?_, hl⟩
    rwa [← peers_of_kind (hl.kind_eq.trans (hs x hx).1)]
  choose! found hmem hlike using hfound
  have hnodup : (things.map found).Nodup := by
    refine List.pairwise_map.mpr (ha.imp_of_mem fun {x y} hx hy hn he => hn ?_)
    exact (hlike x hx).symm.trans (he ▸ hlike y hy)
  have hsub : things.map found ⊆ c.peers e := by
    intro y hy
    obtain ⟨x, hx, rfl⟩ := List.mem_map.mp hy
    exact hmem x hx
  have hle := (hnodup.subperm hsub).length_le
  rw [List.length_map] at hle
  exact Nat.le_trans hle (hc e)

theorem not_stored_new (classes : List ClassDef) (e : Entity) : ¬ Stored { classes } e := by
  intro h
  cases e <;> simp [Stored, peers, SharedItems.items] at h

theorem inStep_new (classes : List ClassDef) : InStep { classes } where
  strings := .empty "string"
  types := .empty "type"
  protos := .empty "proto"
  fields := .empty "field"
  methods := .empty "method"

/-- A new catalog has nothing. -/
theorem within_new (classes : List ClassDef) : Within stock { classes } where
  stored x hx := (not_stored_new classes x hx).elim
  apart x := by cases x <;> exact List.Pairwise.nil
  unfrozen x := by cases x <;> rfl
  inStep := inStep_new classes

theorem length_peers_new (classes : List ClassDef) (e : Entity) :
    (peers { classes } e).length ≤ 0x100000000 := by
  cases e <;> exact Nat.zero_le _

/-- **Adding to a new catalog** succeeds exactly if there is room. -/
theorem insertAll_new_isOk (classes : List ClassDef) (entities : List Entity) :
    (∃ c, insertAll { classes } entities = .ok c) ↔ Room (· ∈ entities) := by
  constructor
  · rintro ⟨c, h⟩
    have hlength := length_peers_of_insertAll (inStep_new classes) (length_peers_new classes) h
    refine room_of_holds hlength fun x hx => ?_
    exact ((insertAll_eq_ok (inStep_new classes) h).2.1 x).mpr (.inr ⟨x, hx, .refl x⟩)
  · intro h
    obtain ⟨c, hc, -⟩ := insertAll_succeeds h (within_new classes) fun _ hx => hx
    exact ⟨c, hc⟩

/-! ## 7. Freezing -/

/-- All that freezing does: each pool is sorted by what the ones before it have become. -/
structure FrozenTo (c d : Catalog) : Prop where
  strings : c.strings.freezeWith Text.unitsLE = .ok d.strings
  types : c.types.freezeWith Text.unitsLE = .ok d.types
  protos : c.protos.freezeBy d.protoRank = .ok d.protos
  fields : c.fields.freezeBy d.fieldRank = .ok d.fields
  methods : c.methods.freezeBy d.methodRank = .ok d.methods
  typeLists : d.typeLists = c.typeLists.freeze
  encodedArrays : d.encodedArrays = c.encodedArrays.freeze
  annotations : d.annotations = c.annotations.freeze
  annotationSets : d.annotationSets = c.annotationSets.freeze
  setLists : d.setLists = c.setLists.freeze
  classes : d.classes = c.classes

theorem frozenTo_of_freeze {c d : Catalog} (h : c.freeze = .ok d) : c.FrozenTo d := by
  obtain ⟨named, hnamed, h⟩ := bind_eq_ok.mp h
  obtain ⟨ranked, hranked, h⟩ := bind_eq_ok.mp h
  obtain ⟨indexed, hindexed, h⟩ := bind_eq_ok.mp h
  obtain ⟨strings, hstrings, hnamed⟩ := bind_eq_ok.mp hnamed
  obtain ⟨types, htypes, hnamed⟩ := bind_eq_ok.mp hnamed
  cases hnamed
  obtain ⟨protos, hprotos, hranked⟩ := bind_eq_ok.mp hranked
  cases hranked
  obtain ⟨fields, hfields, hindexed⟩ := bind_eq_ok.mp hindexed
  obtain ⟨methods, hmethods, hindexed⟩ := bind_eq_ok.mp hindexed
  cases hindexed
  cases h
  exact ⟨hstrings, htypes, hprotos, hfields, hmethods, rfl, rfl, rfl, rfl, rfl, rfl⟩

theorem InStep.freeze {c d : Catalog} (hc : c.InStep) (h : c.freeze = .ok d) : d.InStep where
  strings := (Pool.frozenTo_of_freezeWith (frozenTo_of_freeze h).strings).inStep hc.strings
  types := (Pool.frozenTo_of_freezeWith (frozenTo_of_freeze h).types).inStep hc.types
  protos := (Pool.frozenTo_of_freezeBy (frozenTo_of_freeze h).protos).inStep hc.protos
  fields := (Pool.frozenTo_of_freezeBy (frozenTo_of_freeze h).fields).inStep hc.fields
  methods := (Pool.frozenTo_of_freezeBy (frozenTo_of_freeze h).methods).inStep hc.methods

/-- While pools and maps agree, freezing cannot fail. -/
theorem InStep.freeze_isOk {c : Catalog} (hc : c.InStep) : ∃ d, c.freeze = .ok d := by
  obtain ⟨strings, hstrings⟩ := hc.strings.freezeWith_isOk Text.unitsLE
  obtain ⟨types, htypes⟩ := hc.types.freezeWith_isOk Text.unitsLE
  have hnamed : c.freezeNames = .ok { c with strings, types } :=
    bind_eq_ok.mpr ⟨strings, hstrings, bind_eq_ok.mpr ⟨types, htypes, rfl⟩⟩
  obtain ⟨protos, hprotos⟩ := hc.protos.freezeBy_isOk (protoRank { c with strings, types })
  have hranked : freezeProtos { c with strings, types } = .ok { c with strings, types, protos } :=
    bind_eq_ok.mpr ⟨protos, hprotos, rfl⟩
  obtain ⟨fields, hfields⟩ := hc.fields.freezeBy_isOk (fieldRank { c with strings, types, protos })
  obtain ⟨methods, hmethods⟩ :=
    hc.methods.freezeBy_isOk (methodRank { c with strings, types, protos })
  have hindexed : freezeMembers { c with strings, types, protos } =
      .ok { c with strings, types, protos, fields, methods } :=
    bind_eq_ok.mpr ⟨fields, hfields, bind_eq_ok.mpr ⟨methods, hmethods, rfl⟩⟩
  exact ⟨_, bind_eq_ok.mpr ⟨_, hnamed, bind_eq_ok.mpr ⟨_, hranked,
    bind_eq_ok.mpr ⟨_, hindexed, rfl⟩⟩⟩⟩

theorem peers_freeze {c d : Catalog} (h : c.freeze = .ok d) (e : Entity) :
    (d.peers e).Perm (c.peers e) := by
  have hd := frozenTo_of_freeze h
  cases e with
  | string => exact (Pool.frozenTo_of_freezeWith hd.strings).perm.map _
  | type => exact (Pool.frozenTo_of_freezeWith hd.types).perm.map _
  | proto => exact (Pool.frozenTo_of_freezeBy hd.protos).perm.map _
  | field => exact (Pool.frozenTo_of_freezeBy hd.fields).perm.map _
  | method => exact (Pool.frozenTo_of_freezeBy hd.methods).perm.map _
  | typeList => exact .of_eq (congrArg (·.items.map Entity.typeList) hd.typeLists)
  | encodedArray => exact .of_eq (congrArg (·.items.map Entity.encodedArray) hd.encodedArrays)
  | annotationItem => exact .of_eq (congrArg (·.items.map Entity.annotationItem) hd.annotations)
  | annotationSet => exact .of_eq (congrArg (·.items.map Entity.annotationSet) hd.annotationSets)
  | setList => exact .of_eq (congrArg (·.items.map Entity.setList) hd.setLists)

theorem isFrozen_freeze {c d : Catalog} (h : c.freeze = .ok d) (e : Entity) :
    d.isFrozen e = true := by
  have hd := frozenTo_of_freeze h
  cases e with
  | string => exact (Pool.frozenTo_of_freezeWith hd.strings).frozen
  | type => exact (Pool.frozenTo_of_freezeWith hd.types).frozen
  | proto => exact (Pool.frozenTo_of_freezeBy hd.protos).frozen
  | field => exact (Pool.frozenTo_of_freezeBy hd.fields).frozen
  | method => exact (Pool.frozenTo_of_freezeBy hd.methods).frozen
  | typeList => exact congrArg SharedItems.frozen hd.typeLists
  | encodedArray => exact congrArg SharedItems.frozen hd.encodedArrays
  | annotationItem => exact congrArg SharedItems.frozen hd.annotations
  | annotationSet => exact congrArg SharedItems.frozen hd.annotationSets
  | setList => exact congrArg SharedItems.frozen hd.setLists

theorem stored_freeze {c d : Catalog} {e : Entity} (h : c.freeze = .ok d) :
    d.Stored e ↔ c.Stored e :=
  (peers_freeze h e).mem_iff

theorem holds_freeze {c d : Catalog} {e : Entity} (h : c.freeze = .ok d) :
    d.Holds e ↔ c.Holds e := by
  simp only [Holds, stored_freeze h]

end Catalog

end Dalvik
