/-
# Items one after the other

An item is some bytes at an offset.  The steps of writing lay items into a stream: each after the
ones before, at the multiple of its alignment, and with nothing over it later.  Padding lies between
items and belongs to none.

* `Item.Between` says of a list of items that they follow each other between two places;
* `Stream.Fills` says that one stream is another with items laid into it, and `Lays` that a step
  lays items, of which something is known;
* `Lays.bind` is the rule for a sequence: what is known of the first part is there to show what is
  to be known of the whole.

A region is `Founded` if it starts at a multiple of four and not at zero.  Then multiples of four in
the region are multiples of four in the container, and no item is at the offset zero, which stands
for no item.
-/
import Dalvik.Proofs.Container.Appending

namespace Dalvik

/-! ## 1. Items in order -/

/-- Some bytes of a container, and where they are. -/
structure Item where
  offset : UInt32
  bytes : List UInt8
  deriving DecidableEq, Repr, Inhabited

namespace Item

/-- Where the item begins. -/
def start (i : Item) : Nat :=
  i.offset.toNat

/-- Where the item ends. -/
def stop (i : Item) : Nat :=
  i.start + i.bytes.length

theorem start_lt_stop {i : Item} (h : i.bytes ≠ []) : i.start < i.stop := by
  have hpos := List.length_pos_of_ne_nil h
  rw [stop]
  omega

/-- **The items follow each other** between two places. -/
structure Between (start stop : Nat) (items : List Item) : Prop where
  within : ∀ i ∈ items, start ≤ i.start ∧ i.stop ≤ stop
  apart : items.Pairwise fun i j => i.stop ≤ j.start
  le : start ≤ stop

namespace Between

variable {a b c : Nat} {xs ys : List Item}

theorem nil (h : a ≤ b) : Between a b [] :=
  ⟨by simp, .nil, h⟩

theorem singleton {i : Item} (ha : a ≤ i.start) (hb : i.stop ≤ b) : Between a b [i] := by
  refine ⟨?_, List.pairwise_singleton .., ?_⟩
  · rw [List.forall_mem_singleton]
    exact ⟨ha, hb⟩
  · rw [stop] at hb
    omega

theorem append (hx : Between a b xs) (hy : Between b c ys) : Between a c (xs ++ ys) := by
  refine ⟨?_, List.pairwise_append.mpr ⟨hx.apart, hy.apart, ?_⟩, Nat.le_trans hx.le hy.le⟩
  · intro i hi
    rcases List.mem_append.mp hi with hi | hi
    · have hwithin := hx.within i hi
      exact ⟨hwithin.1, Nat.le_trans hwithin.2 hy.le⟩
    · have hwithin := hy.within i hi
      exact ⟨Nat.le_trans hx.le hwithin.1, hwithin.2⟩
  · intro i hi j hj
    exact Nat.le_trans (hx.within i hi).2 (hy.within j hj).1

end Between

end Item

/-! ## 2. Streams with items laid into them -/

namespace Stream

/-- The offset in the container of the byte that comes next. -/
def stop (s : Stream) : Nat :=
  s.base.toNat + s.data.size

/-- The region starts at a multiple of four, and not at zero. -/
structure Founded (s : Stream) : Prop where
  aligned : s.base.toNat % 4 = 0
  pos : 0 < s.base.toNat

theorem Extends.stop_le {s t : Stream} (h : s.Extends t) : s.stop ≤ t.stop := by
  obtain ⟨hb, more, hm⟩ := h
  have hsize := congrArg List.length hm
  rw [List.length_append, Array.length_toList, Array.length_toList] at hsize
  rw [stop, stop, hb]
  omega

theorem Extends.founded {s t : Stream} (h : s.Extends t) (hs : s.Founded) : t.Founded :=
  ⟨h.base ▸ hs.aligned, h.base ▸ hs.pos⟩

/-- The second stream is the first with items laid into it. -/
structure Fills (s t : Stream) (items : List Item) : Prop where
  extends_ : s.Extends t
  between : Item.Between s.stop t.stop items
  has : ∀ i ∈ items, t.HasAt i.offset i.bytes

namespace Fills

variable {s t u : Stream} {xs ys : List Item}

theorem of_extends (h : s.Extends t) : s.Fills t [] :=
  ⟨h, .nil h.stop_le, by simp⟩

theorem append (hx : s.Fills t xs) (hy : t.Fills u ys) : s.Fills u (xs ++ ys) := by
  refine ⟨hx.extends_.trans hy.extends_, hx.between.append hy.between, ?_⟩
  intro i hi
  rcases List.mem_append.mp hi with hi | hi
  · exact (hx.has i hi).mono hy.extends_
  · exact hy.has i hi

end Fills

end Stream

/-! ## 3. Steps that lay items -/

/-- The step lays items, and something is known of its answer and of them. -/
def Lays {α : Type} (x : StreamWriter α) (P : α → List Item → Prop) : Prop :=
  ∀ s a t, s.Founded → x s = .ok a t → ∃ items, s.Fills t items ∧ P a items

namespace Lays

variable {α β : Type} {P : α → List Item → Prop} {Q : β → List Item → Prop}

theorem pure {a : α} (h : P a []) : Lays (pure a) P := by
  intro s b t _ hb
  obtain ⟨rfl, rfl⟩ := statePure_eq_ok.mp hb
  exact ⟨[], .of_extends (.refl s), h⟩

/-- **A sequence** lays what its parts lay. -/
theorem bind {x : StreamWriter α} {f : α → StreamWriter β} (hx : Lays x P)
    (hf : ∀ a xs, P a xs → Lays (f a) fun b ys => Q b (xs ++ ys)) : Lays (x >>= f) Q := by
  intro s b u hs h
  obtain ⟨a, t, ha, hb⟩ := stateBind_eq_ok.mp h
  obtain ⟨xs, hxs, hp⟩ := hx s a t hs ha
  obtain ⟨ys, hys, hq⟩ := hf a xs hp t b u (hxs.extends_.founded hs) hb
  exact ⟨xs ++ ys, hxs.append hys, hq⟩

/-- A step that lays nothing, before one that may. -/
theorem bind_nil {x : StreamWriter α} {f : α → StreamWriter β} {R : α → Prop}
    (hx : Lays x fun a items => R a ∧ items = []) (hf : ∀ a, R a → Lays (f a) Q) :
    Lays (x >>= f) Q := by
  refine bind hx ?_
  rintro a _ ⟨hr, rfl⟩
  exact hf a hr

theorem mono {P' : α → List Item → Prop} {x : StreamWriter α} (hx : Lays x P)
    (h : ∀ a items, P a items → P' a items) : Lays x P' := by
  intro s a t hs ha
  obtain ⟨items, hitems, hp⟩ := hx s a t hs ha
  exact ⟨items, hitems, h a items hp⟩

/-- The items that a step lays are apart. -/
theorem apart {x : StreamWriter α} (hx : Lays x P) :
    Lays x fun a items => P a items ∧ items.Pairwise fun i j => i.stop ≤ j.start := by
  intro s a t hs ha
  obtain ⟨items, hitems, hp⟩ := hx s a t hs ha
  exact ⟨items, hitems, hp, hitems.between.apart⟩

theorem ite {p : Prop} [Decidable p] {x y : StreamWriter α} (hx : p → Lays x P)
    (hy : ¬ p → Lays y P) : Lays (if p then x else y) P := by
  split
  case isTrue h => exact hx h
  case isFalse h => exact hy h

/-- A choice between two first steps that lay nothing. -/
theorem ite_bind_nil {p : Prop} [Decidable p] {x y : StreamWriter α} {f : α → StreamWriter β}
    {R : α → Prop} (hx : p → Lays x fun a items => R a ∧ items = [])
    (hy : ¬ p → Lays y fun a items => R a ∧ items = []) (hf : ∀ a, R a → Lays (f a) Q) :
    Lays (if p then x >>= f else y >>= f) Q :=
  .ite (fun h => bind_nil (hx h) hf) fun h => bind_nil (hy h) hf

theorem lift (x : Except Error α) :
    Lays (MonadLift.monadLift x : StreamWriter α) fun a items => x = .ok a ∧ items = [] := by
  intro s a t _ h
  obtain ⟨ha, rfl⟩ := stateLift_eq_ok.mp h
  exact ⟨[], .of_extends (.refl s), ha, rfl⟩

theorem inside (context : String) {x : StreamWriter α} (h : Lays x P) :
    Lays (Stream.inside context x) P :=
  fun s a t hs hi => h s a t hs (Stream.inside_eq_ok.mp hi)

theorem align (alignment : Nat) :
    Lays (Stream.align alignment) fun _ items => True ∧ items = [] := by
  intro s a t _ h
  exact ⟨[], .of_extends (StepExtends.align alignment s a t h), trivial, rfl⟩

/-- Padding before a step. -/
theorem align_bind {alignment : Nat} {x : StreamWriter β} (hx : Lays x Q) :
    Lays (Stream.align alignment >>= fun _ => x) Q :=
  bind_nil (align alignment) fun _ _ => hx

end Lays

/-! ## 4. Items in parts -/

/-- Parts that join, if they do, to more than nothing. -/
def Part.Filled (parts : List Part) : Prop :=
  ∀ data, Part.joined parts = .ok data → data ≠ []

theorem Part.filled_cons {part : Part} {rest : List Part}
    (h : ∀ data, part = .ok data → data ≠ []) : Part.Filled (part :: rest) := by
  intro data hd
  obtain ⟨x, y, hx, -, rfl⟩ := joined_cons_eq_ok.mp hd
  exact List.append_ne_nil_of_left_ne_nil (h x hx) y

namespace Part

theorem field_ne_nil {value : Except Error UInt32} {data : List UInt8}
    (h : value.map LittleEndian.encode = .ok data) : data ≠ [] := by
  obtain ⟨v, -, rfl⟩ := map_eq_ok.mp h
  exact LittleEndian.encode_ne_nil (by decide) v

theorem count_ne_nil {n : Nat} {data : List UInt8} (h : count n = .ok data) : data ≠ [] := by
  obtain ⟨v, -, rfl⟩ := map_eq_ok.mp h
  exact List.ne_nil_of_length_pos (Leb128.isGroup_encodeUnsigned v).length_pos

end Part

/-- The item is what the parts join to, at a multiple of its alignment. -/
structure Item.Laid (alignment : Nat) (parts : List Part) (i : Item) : Prop where
  bytes : Part.joined parts = .ok i.bytes
  ne_nil : i.bytes ≠ []
  aligned : i.offset.toNat % alignment = 0
  ne_zero : i.offset ≠ 0

theorem Stream.padding_aligned {s : Stream} (hs : s.Founded) {alignment : Nat}
    (h : alignment = 1 ∨ alignment = 4) :
    (s.base.toNat + (s.data.size + Bytes.padding s.data.size alignment)) % alignment = 0 := by
  have haligned := hs.aligned
  rcases h with rfl | rfl
  · exact Nat.mod_one _
  · rw [Bytes.padding_four]
    omega

namespace Lays

/-- **An item** is laid at a multiple of its alignment. -/
theorem item {alignment : Nat} (ha : alignment = 1 ∨ alignment = 4) {list : List Part}
    (hfilled : Part.Filled list) :
    Lays (Stream.item alignment list) fun offset items =>
      ∃ i : Item, items = [i] ∧ i.offset = offset ∧ i.Laid alignment list := by
  intro s offset t hs h
  obtain ⟨data, hd, hb, ho, ht⟩ := Stream.item_eq_ok h
  obtain ⟨data', hd', hat⟩ := Stream.hasAt_of_item h
  obtain rfl : data = data' := Except.ok.inj (hd.symm.trans hd')
  have hext := StepExtends.item alignment list s offset t h
  have hpos := hs.pos
  have hsize := congrArg List.length ht
  simp only [List.length_append, Array.length_toList, List.length_replicate] at hsize
  have hstart : Item.start ⟨offset, data⟩ = offset.toNat := rfl
  have hstop : Item.stop ⟨offset, data⟩ = offset.toNat + data.length := rfl
  refine ⟨[⟨offset, data⟩], ⟨hext, .singleton ?_ ?_, ?_⟩, ⟨offset, data⟩, rfl, rfl, ?_⟩
  · rw [Stream.stop, hstart]
    omega
  · rw [Stream.stop, hstop, hb]
    omega
  · rw [List.forall_mem_singleton]
    exact hat
  · refine ⟨hd, hfilled data hd, ?_, ?_⟩
    · rw [ho]
      exact Stream.padding_aligned hs ha
    · rintro rfl
      have hzero : (0 : UInt32).toNat = 0 := rfl
      omega

/-- **Items** are laid in their order. -/
theorem items {alignment : Nat} (ha : alignment = 1 ∨ alignment = 4) {lists : List (List Part)}
    (hfilled : ∀ list ∈ lists, Part.Filled list) :
    Lays (Stream.items alignment lists) fun offsets items =>
      offsets = items.map Item.offset ∧ List.Forall₂ (Item.Laid alignment) lists items := by
  induction lists with
  | nil => exact pure ⟨rfl, .nil⟩
  | cons list rest ih =>
    have hlist := hfilled list (List.mem_cons_self ..)
    have hrest := ih fun other hm => hfilled other (List.mem_cons_of_mem _ hm)
    refine bind (item ha hlist) ?_
    rintro _ _ ⟨i, rfl, rfl, hi⟩
    refine bind hrest ?_
    rintro _ items ⟨rfl, hitems⟩
    refine pure ?_
    rw [List.append_nil, List.singleton_append]
    exact ⟨rfl, .cons hi hitems⟩

end Lays

/-! ## 5. Kinds of items -/

/-- The items of each kind, in their order. -/
abbrev Contents := ItemKind → List Item

namespace ItemKind

/-- What the offsets of items are multiples of. -/
def alignment : ItemKind → Nat
  | stringData | encodedArray | annotationItem | classData | debugInfo => 1
  | _ => 4

/-- The kinds of the data section in the order of the file. -/
def dataOrder : List ItemKind :=
  [stringData, typeList, encodedArray, annotationItem, annotationSet, annotationSetRefList,
    annotationsDirectory, codeItem, classData, mapList]

/-- The kinds of the records of the id tables in the order of the file. -/
def idOrder : List ItemKind :=
  [stringId, typeId, protoId, fieldId, methodId, classDef]

/-- **The kinds in the order of the file.**  There are no items of others. -/
def fileOrder : List ItemKind :=
  header :: idOrder ++ dataOrder

theorem alignment_cases (kind : ItemKind) : kind.alignment = 1 ∨ kind.alignment = 4 := by
  cases kind <;> decide

end ItemKind

/-- No item is empty, and each is at a multiple of the alignment of its kind. -/
def ItemKind.Sound (kind : ItemKind) (items : List Item) : Prop :=
  ∀ i ∈ items, i.bytes ≠ [] ∧ i.offset.toNat % kind.alignment = 0

theorem Item.Laid.sound {kind : ItemKind} {lists : List (List Part)} {items : List Item}
    (h : List.Forall₂ (Item.Laid kind.alignment) lists items) : kind.Sound items := by
  intro i hi
  obtain ⟨list, -, hlaid⟩ := exists_of_mem_left h.flip i hi
  exact ⟨hlaid.ne_nil, hlaid.aligned⟩

end Dalvik
