/-
# Writing only appends

Every step of writing leaves what is in a stream where it is, and puts its own bytes after it.  So
an item that has been written stays at its offset to the end, and what a reader finds there is known
as soon as it is written.

* `Extends` relates the streams before and after a step, and `StepExtends` says of a step that it
  only appends; the steps of the data section all do;
* `item_eq_ok` says what an item puts where;
* `Ran` is a step on the way to a stream, and `Shows.bind` takes a sequence apart, each of its parts
  seen from the stream at the end; `Ran.items` says where items are that have been written.
-/
import Dalvik.Container.DataSection
import Dalvik.Proofs.Bytes.Alignment
import Dalvik.Proofs.Bytes.Reading
import Dalvik.Proofs.Resolving

namespace Dalvik

/-! ## 1. Parts -/

namespace Part

theorem joined_cons_eq_ok {part : Part} {rest : List Part} {data : List UInt8} :
    joined (part :: rest) = .ok data ↔
      ∃ x y, part = .ok x ∧ joined rest = .ok y ∧ x ++ y = data := by
  simp only [joined, bind_eq_ok, pure_eq_ok]
  constructor
  · rintro ⟨x, hx, y, hy, rfl⟩
    exact ⟨x, y, hx, hy, rfl⟩
  · rintro ⟨x, y, hx, hy, rfl⟩
    exact ⟨x, hx, y, hy, rfl⟩

/-- Parts join exactly if each of them is there. -/
theorem joined_eq_ok {parts : List Part} {data : List UInt8} :
    joined parts = .ok data ↔
      ∃ chunks, List.Forall₂ (fun p d => p = .ok d) parts chunks ∧ chunks.flatten = data := by
  induction parts generalizing data with
  | nil =>
    constructor
    · rintro ⟨⟩
      exact ⟨[], .nil, rfl⟩
    · rintro ⟨chunks, hc, rfl⟩
      cases hc
      rfl
  | cons part rest ih =>
    rw [joined_cons_eq_ok]
    constructor
    · rintro ⟨x, y, hx, hy, rfl⟩
      obtain ⟨chunks, hc, rfl⟩ := ih.mp hy
      exact ⟨x :: chunks, .cons hx hc, rfl⟩
    · rintro ⟨chunks, hc, rfl⟩
      cases hc with
      | cons hx hc => exact ⟨_, _, hx, ih.mpr ⟨_, hc, rfl⟩, rfl⟩

theorem joined_append_eq_ok {front back : List Part} {data : List UInt8} :
    joined (front ++ back) = .ok data ↔
      ∃ x y, joined front = .ok x ∧ joined back = .ok y ∧ x ++ y = data := by
  induction front generalizing data with
  | nil => simp [joined]
  | cons part rest ih =>
    simp only [List.cons_append, joined_cons_eq_ok, ih]
    constructor
    · rintro ⟨x, _, hx, ⟨y, z, hy, hz, rfl⟩, rfl⟩
      exact ⟨x ++ y, z, ⟨x, y, hx, hy, rfl⟩, hz, by rw [List.append_assoc]⟩
    · rintro ⟨_, z, ⟨x, y, hx, hy, rfl⟩, hz, rfl⟩
      exact ⟨x, y ++ z, hx, ⟨y, z, hy, hz, rfl⟩, by rw [List.append_assoc]⟩

end Part

/-- Padding reaches the next multiple of four. -/
theorem Bytes.padding_four (n : Nat) : padding n 4 = (4 - n % 4) % 4 :=
  padding_eq 2 n

/-! ## 2. Streams that grow -/

namespace Stream

/-- The stream with bytes after it. -/
def after (s : Stream) (more : List UInt8) : Stream :=
  { s with data := s.data ++ more }

@[simp] theorem base_after (s : Stream) (more : List UInt8) : (s.after more).base = s.base :=
  rfl

@[simp] theorem toList_after (s : Stream) (more : List UInt8) :
    (s.after more).data.toList = s.data.toList ++ more :=
  Array.toList_appendList ..

@[simp] theorem size_after (s : Stream) (more : List UInt8) :
    (s.after more).data.size = s.data.size + more.length := by
  rw [← Array.length_toList, toList_after, List.length_append, Array.length_toList]

theorem after_nil (s : Stream) : s.after [] = s := by
  rw [after, Array.appendList_nil]

theorem after_after (s : Stream) (x y : List UInt8) : (s.after x).after y = s.after (x ++ y) := by
  have h : ((s.after x).after y).data = (s.after (x ++ y)).data := by
    rw [← Array.toList_inj, toList_after, toList_after, toList_after, List.append_assoc]
  rw [Stream.mk.injEq]
  exact ⟨rfl, h⟩

/-- The second stream is the first with bytes after it. -/
structure Extends (s t : Stream) : Prop where
  base : t.base = s.base
  data : ∃ more, t.data.toList = s.data.toList ++ more

namespace Extends

variable {s t u : Stream}

theorem refl (s : Stream) : s.Extends s :=
  ⟨rfl, [], (List.append_nil _).symm⟩

theorem trans (h : s.Extends t) (h' : t.Extends u) : s.Extends u := by
  obtain ⟨hb, x, hx⟩ := h
  obtain ⟨hb', y, hy⟩ := h'
  exact ⟨hb'.trans hb, x ++ y, by rw [hy, hx, List.append_assoc]⟩

theorem after (s : Stream) (more : List UInt8) : s.Extends (s.after more) :=
  ⟨rfl, more, toList_after s more⟩

end Extends

/-- The stream has the bytes at an offset of the container. -/
def HasAt (s : Stream) (offset : UInt32) (bytes : List UInt8) : Prop :=
  ∃ place, offset.toNat = s.base.toNat + place ∧ Stands s.data.toList place bytes

theorem HasAt.mono {s t : Stream} {offset : UInt32} {bytes : List UInt8} (h : s.HasAt offset bytes)
    (e : s.Extends t) : t.HasAt offset bytes := by
  obtain ⟨place, ho, hs⟩ := h
  obtain ⟨hb, more, hm⟩ := e
  refine ⟨place, by rw [ho, hb], ?_⟩
  rw [hm]
  exact hs.append more

/-- In a container that has the stream at its base, the bytes are at their offset. -/
theorem HasAt.stands {s : Stream} {offset : UInt32} {bytes data : List UInt8}
    (h : s.HasAt offset bytes) (hs : Stands data s.base.toNat s.data.toList) :
    Stands data offset.toNat bytes := by
  obtain ⟨place, ho, hp⟩ := h
  rw [ho]
  exact hs.trans hp

/-! ## 3. What is appended -/

variable {s t : Stream}

theorem next_eq_ok {offset : UInt32} (h : s.next = .ok offset) :
    offset.toNat = s.base.toNat + s.data.size := by
  obtain ⟨length, hl, h⟩ := bind_eq_ok.mp h
  have hlength := Bytes.narrow32_eq_ok hl
  split at h
  case isTrue hlt =>
    obtain rfl := pure_eq_ok.mp h
    rw [UInt32.toNat_add]
    omega
  case isFalse => exact (throw_ne_ok h).elim

theorem align_eq_ok {alignment : Nat} {u : Unit} (h : align alignment s = .ok u t) :
    t = s.after (List.replicate (Bytes.padding s.data.size alignment) 0) :=
  (stateModify_eq_ok.mp h).symm

theorem position_eq_ok {offset : UInt32} (h : position s = .ok offset t) :
    offset.toNat = s.base.toNat + s.data.size ∧ t = s := by
  obtain ⟨_, _, hg, hv⟩ := stateBind_eq_ok.mp h
  obtain ⟨rfl, rfl⟩ := stateGet_eq_ok.mp hg
  obtain ⟨hn, rfl⟩ := stateLift_eq_ok.mp hv
  exact ⟨next_eq_ok hn, rfl⟩

theorem parts_eq_ok {list : List Part} {u : Unit} (h : parts list s = .ok u t) :
    ∃ data, Part.joined list = .ok data ∧ t = s.after data := by
  induction list generalizing s with
  | nil =>
    obtain ⟨-, rfl⟩ := statePure_eq_ok.mp h
    exact ⟨[], rfl, (after_nil s).symm⟩
  | cons part rest ih =>
    cases part with
    | error e => exact (stateThrow_ne_ok h).elim
    | ok first =>
      obtain ⟨_, v, hv, h⟩ := stateBind_eq_ok.mp h
      obtain rfl : s.after first = v := stateModify_eq_ok.mp hv
      obtain ⟨data, hd, rfl⟩ := ih h
      exact ⟨first ++ data, Part.joined_cons_eq_ok.mpr ⟨first, data, rfl, hd, rfl⟩,
        after_after s first data⟩

/-- **An item** is padded and appended, and is at the offset that is answered. -/
theorem item_eq_ok {alignment : Nat} {list : List Part} {offset : UInt32}
    (h : item alignment list s = .ok offset t) :
    ∃ data, Part.joined list = .ok data ∧ t.base = s.base ∧
      offset.toNat = s.base.toNat + (s.data.size + Bytes.padding s.data.size alignment) ∧
      t.data.toList = s.data.toList ++
        (List.replicate (Bytes.padding s.data.size alignment) 0 ++ data) := by
  obtain ⟨_, u, hu, h⟩ := stateBind_eq_ok.mp h
  obtain rfl := align_eq_ok hu
  obtain ⟨o, v, hv, h⟩ := stateBind_eq_ok.mp h
  obtain ⟨hn, rfl⟩ := position_eq_ok hv
  obtain ⟨_, w, hp, h⟩ := stateBind_eq_ok.mp h
  obtain ⟨rfl, rfl⟩ := statePure_eq_ok.mp h
  obtain ⟨data, hd, rfl⟩ := parts_eq_ok hp
  refine ⟨data, hd, rfl, ?_, ?_⟩
  · rw [hn, base_after, size_after, List.length_replicate]
  · rw [toList_after, toList_after, List.append_assoc]

theorem hasAt_of_item {alignment : Nat} {list : List Part} {offset : UInt32}
    (h : item alignment list s = .ok offset t) :
    ∃ data, Part.joined list = .ok data ∧ t.HasAt offset data := by
  obtain ⟨data, hd, hb, ho, ht⟩ := item_eq_ok h
  refine ⟨data, hd, s.data.size + Bytes.padding s.data.size alignment, by rw [ho, hb], ?_⟩
  refine ⟨s.data.toList ++ List.replicate (Bytes.padding s.data.size alignment) 0, [], ?_, ?_⟩
  · rw [ht, List.append_nil, List.append_assoc]
  · simp

end Stream

/-! ## 4. Steps that append -/

/-- The step leaves what is in the stream, and appends to it. -/
def StepExtends {α : Type} (x : StreamWriter α) : Prop :=
  ∀ s a t, x s = .ok a t → s.Extends t

namespace StepExtends

variable {α β : Type}

theorem pure (a : α) : StepExtends (pure a) := by
  intro s b t h
  obtain ⟨-, rfl⟩ := statePure_eq_ok.mp h
  exact .refl s

theorem bind {x : StreamWriter α} {f : α → StreamWriter β} (hx : StepExtends x)
    (hf : ∀ a, StepExtends (f a)) : StepExtends (x >>= f) := by
  intro s b t h
  obtain ⟨a, u, hu, ht⟩ := stateBind_eq_ok.mp h
  exact (hx s a u hu).trans (hf a u b t ht)

theorem lift (x : Except Error α) : StepExtends (MonadLift.monadLift x : StreamWriter α) := by
  intro s a t h
  obtain ⟨-, rfl⟩ := stateLift_eq_ok.mp h
  exact .refl s

theorem ite {p : Prop} [Decidable p] {x y : StreamWriter α} (hx : StepExtends x)
    (hy : StepExtends y) : StepExtends (if p then x else y) := by
  split
  · exact hx
  · exact hy

/-- A choice between two first steps. -/
theorem ite_bind {p : Prop} [Decidable p] {x y : StreamWriter α} {f : α → StreamWriter β}
    (hx : StepExtends x) (hy : StepExtends y) (hf : ∀ a, StepExtends (f a)) :
    StepExtends (if p then x >>= f else y >>= f) :=
  .ite (.bind hx hf) (.bind hy hf)

theorem mapM {f : α → StreamWriter β} (h : ∀ a, StepExtends (f a)) (l : List α) :
    StepExtends (l.mapM f) := by
  induction l with
  | nil => exact pure []
  | cons a rest ih =>
    rw [List.mapM_cons]
    exact bind (h a) fun _ => bind ih fun _ => pure _

theorem inside (context : String) {x : StreamWriter α} (h : StepExtends x) :
    StepExtends (Stream.inside context x) :=
  fun s a t hi => h s a t (Stream.inside_eq_ok.mp hi)

theorem align (alignment : Nat) : StepExtends (Stream.align alignment) := by
  intro s a t h
  obtain rfl := Stream.align_eq_ok h
  exact .after s _

theorem position : StepExtends Stream.position := by
  intro s a t h
  obtain ⟨-, rfl⟩ := Stream.position_eq_ok h
  exact .refl t

theorem parts (list : List Part) : StepExtends (Stream.parts list) := by
  intro s a t h
  obtain ⟨data, -, rfl⟩ := Stream.parts_eq_ok h
  exact .after s data

theorem item (alignment : Nat) (list : List Part) : StepExtends (Stream.item alignment list) :=
  bind (align alignment) fun _ => bind position fun _ => bind (parts list) fun _ => pure _

theorem items (alignment : Nat) (lists : List (List Part)) :
    StepExtends (Stream.items alignment lists) := by
  induction lists with
  | nil => exact pure []
  | cons first rest ih => exact bind (item alignment first) fun _ => bind ih fun _ => pure _

end StepExtends

namespace Stream

variable {α β : Type} {t : Stream}

/-! ## 5. Steps on the way to a stream -/

/-- The step has been run, with the answer, and nothing but appending came after it. -/
def Ran (x : StreamWriter α) (a : α) (t : Stream) : Prop :=
  ∃ s u, x s = .ok a u ∧ s.base = t.base ∧ u.Extends t

theorem Ran.bind {x : StreamWriter α} {f : α → StreamWriter β} {b : β} (hf : ∀ a, StepExtends (f a))
    (h : Ran (x >>= f) b t) (hx : StepExtends x) : ∃ a, Ran x a t ∧ Ran (f a) b t := by
  obtain ⟨s, u, hu, hb, he⟩ := h
  obtain ⟨a, v, hv, hu⟩ := stateBind_eq_ok.mp hu
  have hs := hx s a v hv
  exact ⟨a, ⟨s, v, hv, hb, (hf a v b u hu).trans he⟩, v, u, hu, hs.base.trans hb, he⟩

/-- The step only appends, and a run of it shows something of its answer and the stream. -/
structure Shows (x : StreamWriter β) (P : β → Stream → Prop) : Prop where
  appends : StepExtends x
  shows : ∀ {b t}, Ran x b t → P b t

theorem Shows.of_ok {x : StreamWriter β} {P : β → Stream → Prop} (hx : Shows x P) {s : Stream}
    {b : β} (h : x s = .ok b t) : P b t :=
  hx.shows ⟨s, t, h, (hx.appends s b t h).base.symm, .refl t⟩

/-- **A sequence** shows that each of its parts has been run, seen from the stream at the end. -/
theorem Shows.bind {x : StreamWriter α} {f : α → StreamWriter β} {P : α → β → Stream → Prop}
    (hx : StepExtends x) (hf : ∀ a, Shows (f a) (P a)) :
    Shows (x >>= f) fun b t => ∃ a, Ran x a t ∧ P a b t where
  appends := hx.bind fun a => (hf a).appends
  shows := by
    intro b t h
    obtain ⟨a, ha, hb⟩ := h.bind (fun a => (hf a).appends) hx
    exact ⟨a, ha, (hf a).shows hb⟩

theorem Shows.pure (a : α) : Shows (pure a) fun b _ => a = b where
  appends := .pure a
  shows := by
    rintro b t ⟨s, u, h, -, -⟩
    exact (statePure_eq_ok.mp h).1

theorem Ran.inside {context : String} {x : StreamWriter α} {a : α}
    (h : Ran (inside context x) a t) : Ran x a t := by
  obtain ⟨s, u, hu, hb, he⟩ := h
  exact ⟨s, u, inside_eq_ok.mp hu, hb, he⟩

theorem Ran.item {alignment : Nat} {list : List Part} {offset : UInt32}
    (h : Ran (item alignment list) offset t) :
    ∃ data, Part.joined list = .ok data ∧ t.HasAt offset data := by
  obtain ⟨s, u, hu, -, he⟩ := h
  obtain ⟨data, hd, ho⟩ := hasAt_of_item hu
  exact ⟨data, hd, ho.mono he⟩

/-- **Items** that have been written are each at the offset that was answered. -/
theorem Ran.items {alignment : Nat} {lists : List (List Part)} {offsets : List UInt32}
    (h : Ran (items alignment lists) offsets t) :
    List.Forall₂ (fun list offset => ∃ data, Part.joined list = .ok data ∧ t.HasAt offset data)
      lists offsets := by
  obtain ⟨s, u, hu, -, he⟩ := h
  induction lists generalizing s u offsets with
  | nil =>
    obtain ⟨rfl, -⟩ := statePure_eq_ok.mp hu
    exact .nil
  | cons first rest ih =>
    obtain ⟨offset, v, hv, hu⟩ := stateBind_eq_ok.mp hu
    obtain ⟨more, w, hw, hu⟩ := stateBind_eq_ok.mp hu
    obtain ⟨rfl, rfl⟩ := statePure_eq_ok.mp hu
    obtain ⟨data, hd, ho⟩ := hasAt_of_item hv
    have hrest := (StepExtends.items alignment rest v more w hw).trans he
    exact .cons ⟨data, hd, ho.mono hrest⟩ (ih v w hw he)

/-- Steps of one form that have been run one after the other have each been run. -/
theorem Ran.mapM {f : α → StreamWriter β} (hf : ∀ a, StepExtends (f a)) {l : List α} {bs : List β}
    (h : Ran (l.mapM f) bs t) : List.Forall₂ (fun a b => Ran (f a) b t) l bs := by
  induction l generalizing bs with
  | nil =>
    rw [List.mapM_nil] at h
    obtain rfl := (Shows.pure _).shows h
    exact .nil
  | cons a rest ih =>
    rw [List.mapM_cons] at h
    obtain ⟨b, hb, more, hm, rfl⟩ :=
      (Shows.bind (hf a) fun _ => .bind (.mapM hf rest) fun _ => .pure _).shows h
    exact .cons hb (ih hm)

end Stream

/-! ## 6. The layers of the data section -/

theorem Method.appends_writeCode {ix : Indexer} {options : Container.Options} {m : Method}
    {b : Body} : StepExtends (m.writeCode ix options b) :=
  .bind (.lift _) fun _ => .bind (.lift _) fun _ => .bind (.lift _) fun _ => .item 4 _

theorem ClassDef.appends_writeData {ix : Indexer} {code : ClassDef.CodeOffsets} {d : ClassDef} :
    StepExtends (d.writeData ix code) :=
  .ite (.pure 0) (.bind (.lift _) fun _ => .item 1 _)

theorem MapList.appends_write {m : MapList} : StepExtends m.write :=
  .bind (.align 4) fun _ => .bind .position fun _ => .bind (.lift _) fun _ =>
    .bind (.parts _) fun _ => .pure _

namespace Catalog

variable {c : Catalog}

theorem appends_writeStrings : StepExtends c.writeStrings :=
  .items 1 _

theorem appends_writeTypeLists : StepExtends c.writeTypeLists :=
  .bind (.items 4 _) fun _ => .pure _

theorem appends_writeArrays : StepExtends c.writeArrays :=
  .bind (.items 1 _) fun _ => .pure _

theorem appends_writeAnnotations : StepExtends c.writeAnnotations :=
  .bind (.items 1 _) fun _ => .pure _

theorem appends_writeSets : StepExtends c.writeSets :=
  .bind (.items 4 _) fun _ => .pure _

theorem appends_writeSetLists : StepExtends c.writeSetLists :=
  .bind (.items 4 _) fun _ => .pure _

theorem appends_writeDirectoriesOf (all : List ClassDef) (shared : List (UInt32 × UInt32)) :
    StepExtends (c.writeDirectoriesOf shared all) := by
  induction all generalizing shared with
  | nil => exact .pure _
  | cons d rest ih =>
    have hadd : ∀ classSet (later : UInt32 → List (UInt32 × UInt32)), StepExtends (do
        let offset ← Stream.item 4 [c.directory classSet d]
        return Directories.add offset (← c.writeDirectoriesOf (later offset) rest)) :=
      fun _ _ => .bind (.item 4 _) fun _ => .bind (ih _) fun _ => .pure _
    have hreuse : ∀ offset, StepExtends (do
        return Directories.reuse offset (← c.writeDirectoriesOf shared rest)) :=
      fun _ => .bind (ih _) fun _ => .pure _
    rw [writeDirectoriesOf]
    refine .ite_bind (.pure 0) (.lift _) fun classSet => ?_
    split
    · exact hadd classSet fun _ => shared
    · dsimp only
      split
      · exact hreuse 0
      · split
        · exact hreuse _
        · exact hadd classSet fun offset => (classSet, offset) :: shared

theorem appends_writeCodeOf {options : Container.Options} (all : List (MethodRef × Method × Body))
    (before : ClassDef.CodeOffsets) : StepExtends (c.writeCodeOf options before all) := by
  induction all generalizing before with
  | nil => exact .pure _
  | cons x rest ih => exact .bind (.inside _ Method.appends_writeCode) fun _ => ih _

theorem appends_writeDirectories : StepExtends c.writeDirectories :=
  appends_writeDirectoriesOf c.classes []

theorem appends_writeCode {options : Container.Options} : StepExtends (c.writeCode options) :=
  appends_writeCodeOf c.methodsWithCode []

theorem appends_writeClassData {code : ClassDef.CodeOffsets} :
    StepExtends (c.writeClassData code) :=
  .mapM (fun _ => .inside _ ClassDef.appends_writeData) _

end Catalog

end Dalvik
