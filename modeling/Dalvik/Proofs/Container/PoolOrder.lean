/-
# The pools are in the order of the format

Freezing sorts the pools in three steps: strings and types by their code units, then prototypes by
the indices of their types, then fields and methods by the indices of what they name.  Each step
relies on the one before: a key made of indices tells its items apart only because everything that
they name has an index, and no two things have the same one.  So the order in each pool is strict.

* `Pool.freezeBy_pairwise`: sorting by a key that tells the items apart leaves them strictly
  increasing;
* `Catalog.Stages` names the catalogs between the steps, and `Catalog.SortsKnown` says that all keys
  of a step are made of indices that are there;
* `pools_in_order` is the statement for discovery.  That indices are the places of the items is what
  `Pool.InStep` says of the map of each pool.
-/
import Mathlib.Data.List.Nodup
import Mathlib.Data.List.Perm.Basic
import Dalvik.Proofs.Container.Serving
import Dalvik.Proofs.Sorting
import Dalvik.Proofs.Text.Utf16

namespace Dalvik

/-! ## 1. Strict sorting -/

namespace Pool

variable {α : Type} {p q : Pool α}

theorem freezeWith_pairwise {cmp : α → α → Ordering} [Std.TransCmp cmp] [Std.LawfulEqCmp cmp]
    (hn : p.items.Nodup) (h : p.freezeWith (fun a b => (cmp a b).isLE) = .ok q) :
    q.items.Pairwise fun a b => cmp a b = .lt := by
  rw [(freezeAs_eq_ok h).1]
  exact pairwise_mergeSort_lt (f := id) (by rwa [List.map_id])

theorem freezeBy_pairwise {sortKey : α → List Nat} (hn : p.items.Nodup)
    (hinj : ∀ a ∈ p.items, ∀ b ∈ p.items, sortKey a = sortKey b → a = b)
    (h : p.freezeBy sortKey = .ok q) :
    q.items.Pairwise fun a b => compare (sortKey a) (sortKey b) = .lt := by
  have hkeys : ((p.items.map fun a => (sortKey a, a)).map (·.1)).Nodup := by
    rw [List.map_map]
    exact hn.map_on hinj
  have hsorted : ((p.items.map fun a => (sortKey a, a)).mergeSort fun a b =>
      (compare a.1 b.1).isLE).Pairwise fun a b => compare a.1 b.1 = .lt :=
    pairwise_mergeSort_lt hkeys
  rw [(freezeAs_eq_ok h).1]
  refine List.pairwise_map.mpr (hsorted.imp_of_mem ?_)
  intro a b ha hb hab
  obtain ⟨x, -, rfl⟩ := List.mem_map.mp ((List.mergeSort_perm ..).mem_iff.mp ha)
  obtain ⟨y, -, rfl⟩ := List.mem_map.mp ((List.mergeSort_perm ..).mem_iff.mp hb)
  exact hab

/-! ## 2. Places -/

variable [BEq α] {a b : α} {place : Nat}

theorem InStep.eq_of_index? (hp : p.InStep) (ha : p.index? a = some place)
    (hb : p.index? b = some place) : a = b := by
  have h := (hp.index?_iff a place).mp ha
  rwa [(hp.index?_iff b place).mp hb, Option.some.injEq, eq_comm] at h

/-- **In a strictly sorted pool, places compare as the items do.** -/
theorem InStep.compare_index? {cmp : α → α → Ordering} [Std.OrientedCmp cmp] (hp : p.InStep)
    (h : p.items.Pairwise fun a b => cmp a b = .lt) (heq : cmp a b = .eq → a = b) {i j : Nat}
    (ha : p.index? a = some i) (hb : p.index? b = some j) : compare i j = cmp a b := by
  have hlt : ∀ {a b : α} {i j : Nat}, p.index? a = some i → p.index? b = some j →
      cmp a b = .lt → i < j := by
    intro a b i j ha hb hab
    obtain ⟨hi, hpi⟩ := List.getElem?_eq_some_iff.mp ((hp.index?_iff a i).mp ha)
    obtain ⟨hj, hpj⟩ := List.getElem?_eq_some_iff.mp ((hp.index?_iff b j).mp hb)
    rcases Nat.lt_trichotomy i j with hij | rfl | hji
    · exact hij
    · obtain rfl : a = b := hpi.symm.trans hpj
      have hself : cmp a a = .eq := Std.ReflCmp.compare_self
      rw [hself] at hab
      cases hab
    · have hba := List.pairwise_iff_getElem.mp h j i hj hi hji
      rw [hpi, hpj, Std.OrientedCmp.gt_of_lt hab] at hba
      cases hba
  cases hab : cmp a b with
  | lt => exact Nat.compare_eq_lt.mpr (hlt ha hb hab)
  | eq =>
    obtain rfl := heq hab
    exact Nat.compare_eq_eq.mpr (Option.some.inj (ha.symm.trans hb))
  | gt => exact Nat.compare_eq_gt.mpr (hlt hb ha (Std.OrientedCmp.lt_of_gt hab))

end Pool

namespace Catalog

variable {options : Container.Options} {classes : List ClassDef} {c : Catalog}

/-! ## 3. Keys -/

/-- What the key of a prototype is made of. -/
def protoNames (p : Proto) : List Reference :=
  .type p.returnType :: p.parameters.map .type

/-- What the key of a field is made of. -/
def fieldNames (f : FieldRef) : List Reference :=
  [.type f.owner, .string f.name, .type f.type]

/-- What the key of a method is made of. -/
def methodNames (m : MethodRef) : List Reference :=
  [.type m.owner, .string m.name, .proto m.proto]

/-- The reference has a place, so that its rank is this place and not the one that stands for
none. -/
def Knows (c : Catalog) (r : Reference) : Prop :=
  (c.place? r).isSome = true

theorem place?_of_knows {r : Reference} (h : c.Knows r) : c.place? r = some (c.rank r) := by
  obtain ⟨place, hp⟩ := Option.isSome_iff_exists.mp h
  rw [rank, hp, Option.getD_some]

/-- References that are looked up in one pool are told apart by their ranks, if they have places. -/
theorem eq_of_rank {α : Type} [BEq α] {p : Pool α} {reference : α → Reference} (hs : p.InStep)
    (hp : ∀ a, c.place? (reference a) = p.index? a) {a b : α} (ha : c.Knows (reference a))
    (hb : c.Knows (reference b)) (h : c.rank (reference a) = c.rank (reference b)) : a = b := by
  have hplace := place?_of_knows ha
  have hplace' := place?_of_knows hb
  rw [hp] at hplace hplace'
  rw [← h] at hplace'
  exact hs.eq_of_index? hplace hplace'

theorem type_of_rank (hc : c.InStep) {a b : String} (ha : c.Knows (.type a))
    (hb : c.Knows (.type b)) (h : c.rank (.type a) = c.rank (.type b)) : a = b :=
  eq_of_rank hc.types (fun _ => rfl) ha hb h

theorem string_of_rank (hc : c.InStep) {a b : String} (ha : c.Knows (.string a))
    (hb : c.Knows (.string b)) (h : c.rank (.string a) = c.rank (.string b)) : a = b :=
  eq_of_rank hc.strings (fun _ => rfl) ha hb h

theorem proto_of_rank (hc : c.InStep) {a b : Proto} (ha : c.Knows (.proto a))
    (hb : c.Knows (.proto b)) (h : c.rank (.proto a) = c.rank (.proto b)) : a = b :=
  eq_of_rank hc.protos (fun _ => rfl) ha hb h

theorem types_of_ranks (hc : c.InStep) {as bs : List String} (ha : ∀ d ∈ as, c.Knows (.type d))
    (hb : ∀ d ∈ bs, c.Knows (.type d))
    (h : (as.map fun d => c.rank (.type d)) = bs.map fun d => c.rank (.type d)) : as = bs := by
  induction as generalizing bs with
  | nil =>
    cases bs with
    | nil => rfl
    | cons => cases h
  | cons a as ih =>
    cases bs with
    | nil => cases h
    | cons b bs =>
      simp only [List.map_cons, List.cons.injEq] at h
      obtain ⟨hhead, htail⟩ := h
      obtain rfl :=
        type_of_rank hc (ha a (List.mem_cons_self ..)) (hb b (List.mem_cons_self ..)) hhead
      rw [ih (fun d hd => ha d (List.mem_cons_of_mem _ hd))
        (fun d hd => hb d (List.mem_cons_of_mem _ hd)) htail]

theorem proto_of_protoRank (hc : c.InStep) {p q : Proto} (hp : ∀ r ∈ protoNames p, c.Knows r)
    (hq : ∀ r ∈ protoNames q, c.Knows r) (h : c.protoRank p = c.protoRank q) : p = q := by
  simp only [protoNames, List.forall_mem_cons, List.forall_mem_map] at hp hq
  simp only [protoRank, List.cons.injEq] at h
  have hreturn := type_of_rank hc hp.1 hq.1 h.1
  have hparameters := types_of_ranks hc hp.2 hq.2 h.2
  cases p
  cases q
  cases hreturn
  cases hparameters
  rfl

theorem field_of_fieldRank (hc : c.InStep) {f g : FieldRef} (hf : ∀ r ∈ fieldNames f, c.Knows r)
    (hg : ∀ r ∈ fieldNames g, c.Knows r) (h : c.fieldRank f = c.fieldRank g) : f = g := by
  simp only [fieldNames, List.forall_mem_cons] at hf hg
  simp only [fieldRank, List.cons.injEq] at h
  have howner := type_of_rank hc hf.1 hg.1 h.1
  have hname := string_of_rank hc hf.2.1 hg.2.1 h.2.1
  have htype := type_of_rank hc hf.2.2.1 hg.2.2.1 h.2.2.1
  cases f
  cases g
  cases howner
  cases hname
  cases htype
  rfl

theorem method_of_methodRank (hc : c.InStep) {m n : MethodRef}
    (hm : ∀ r ∈ methodNames m, c.Knows r) (hn : ∀ r ∈ methodNames n, c.Knows r)
    (h : c.methodRank m = c.methodRank n) : m = n := by
  simp only [methodNames, List.forall_mem_cons] at hm hn
  simp only [methodRank, List.cons.injEq] at h
  have howner := type_of_rank hc hm.1 hn.1 h.1
  have hname := string_of_rank hc hm.2.1 hn.2.1 h.2.1
  have hproto := proto_of_rank hc hm.2.2.1 hn.2.2.1 h.2.2.1
  cases m
  cases n
  cases howner
  cases hname
  cases hproto
  rfl

/-! ## 4. Discovery before freezing -/

/-- The catalog of classes as discovery has gathered it, before freezing. -/
def gather (options : Container.Options) (classes : List ClassDef) : Except Error Catalog := do
  let c : Catalog := { classes := ClassDef.inOrder classes }
  let c ← c.addEmptySet options
  c.classes.foldlM addClass c

theorem discover_eq_gather : discover options classes = gather options classes >>= freeze := by
  rw [discover, gather, bind_assoc]

/-- What is reached has a place. -/
theorem knows_of_reached (h : discover options classes = .ok c) {r : Reference} {e : Entity}
    (hr : r.entity? = some e) (he : Reached options classes e) : c.Knows r := by
  have hs := (discover_stored h (Reference.pooled hr)).mpr he
  exact place?_isSome_of_stored (inStep_of_discover h) hr hs

theorem knows_protoNames (h : discover options classes = .ok c) {p : Proto}
    (hp : p ∈ c.protos.items) : ∀ r ∈ protoNames p, c.Knows r := by
  have hreached := reached_of_stored h (stored_proto.mpr hp)
  simp only [protoNames, List.forall_mem_cons, List.forall_mem_map]
  refine ⟨knows_of_reached h rfl (hreached.implied (.returnType p)), fun d hd => ?_⟩
  exact knows_of_reached h rfl (hreached.implied (.parameter hd))

theorem knows_fieldNames (h : discover options classes = .ok c) {f : FieldRef}
    (hf : f ∈ c.fields.items) : ∀ r ∈ fieldNames f, c.Knows r := by
  have hreached := reached_of_stored h (stored_field.mpr hf)
  simp only [fieldNames, List.forall_mem_cons]
  refine ⟨knows_of_reached h rfl (hreached.implied (.fieldOwner f)),
    knows_of_reached h rfl (hreached.implied (.fieldName f)),
    knows_of_reached h rfl (hreached.implied (.fieldType f)), ?_⟩
  exact fun _ hn => (List.not_mem_nil hn).elim

theorem knows_methodNames (h : discover options classes = .ok c) {m : MethodRef}
    (hm : m ∈ c.methods.items) : ∀ r ∈ methodNames m, c.Knows r := by
  have hreached := reached_of_stored h (stored_method.mpr hm)
  simp only [methodNames, List.forall_mem_cons]
  refine ⟨knows_of_reached h rfl (hreached.implied (.methodOwner m)),
    knows_of_reached h rfl (hreached.implied (.methodName m)),
    knows_of_reached h rfl (hreached.implied (.methodProto m)), ?_⟩
  exact fun _ hn => (List.not_mem_nil hn).elim

/-! ## 5. Order -/

/-- The pools are strictly increasing: strings and types by code units, types also by the indices of
their descriptors, and the others by the indices of what they name, all of which are there. -/
structure InFormatOrder (c : Catalog) : Prop where
  strings : c.strings.items.Pairwise fun a b => Text.compareUnits a b = .lt
  types : c.types.items.Pairwise fun a b => Text.compareUnits a b = .lt
  descriptors : c.types.items.Pairwise fun a b => c.rank (.string a) < c.rank (.string b)
  protos : c.protos.items.Pairwise fun p q => compare (c.protoRank p) (c.protoRank q) = .lt
  fields : c.fields.items.Pairwise fun f g => compare (c.fieldRank f) (c.fieldRank g) = .lt
  methods : c.methods.items.Pairwise fun m n => compare (c.methodRank m) (c.methodRank n) = .lt
  knowsTypes : ∀ d ∈ c.types.items, c.Knows (.string d)
  knowsProtos : ∀ p ∈ c.protos.items, ∀ r ∈ protoNames p, c.Knows r
  knowsFields : ∀ f ∈ c.fields.items, ∀ r ∈ fieldNames f, c.Knows r
  knowsMethods : ∀ m ∈ c.methods.items, ∀ r ∈ methodNames m, c.Knows r

/-- In each pool the index of an item is the place where the pool has it. -/
structure Indexed (c : Catalog) : Prop where
  strings : ∀ s i, c.strings.index? s = some i ↔ c.strings.get? i = some s
  types : ∀ d i, c.types.index? d = some i ↔ c.types.get? i = some d
  protos : ∀ p i, c.protos.index? p = some i ↔ c.protos.get? i = some p
  fields : ∀ f i, c.fields.index? f = some i ↔ c.fields.get? i = some f
  methods : ∀ m i, c.methods.index? m = some i ↔ c.methods.get? i = some m

theorem InStep.indexed (hc : c.InStep) : c.Indexed where
  strings := hc.strings.index?_iff
  types := hc.types.index?_iff
  protos := hc.protos.index?_iff
  fields := hc.fields.index?_iff
  methods := hc.methods.index?_iff

/-- Types are in the order of their descriptors among the strings. -/
theorem descriptors_of_discover (h : discover options classes = .ok c)
    (hs : c.strings.items.Pairwise fun a b => Text.compareUnits a b = .lt)
    (ht : c.types.items.Pairwise fun a b => Text.compareUnits a b = .lt) :
    c.types.items.Pairwise fun a b => c.rank (.string a) < c.rank (.string b) := by
  have hknown : ∀ d ∈ c.types.items, c.Knows (.string d) := fun d hd =>
    knows_of_reached h rfl ((reached_of_stored h (stored_type.mpr hd)).implied (.descriptor d))
  refine ht.imp_of_mem ?_
  intro a b ha hb hab
  have hplaces := (inStep_of_discover h).strings.compare_index? hs Std.LawfulEqCmp.eq_of_compare
    (place?_of_knows (hknown a ha)) (place?_of_knows (hknown b hb))
  exact Nat.compare_eq_lt.mp (hplaces.trans hab)

/-- What discovery answers, it has gathered and frozen. -/
theorem exists_gathered (h : discover options classes = .ok c) :
    ∃ gathered, gather options classes = .ok gathered ∧ gathered.freeze = .ok c := by
  rw [discover_eq_gather] at h
  exact bind_eq_ok.mp h

/-- Freezing brings each pool into its order. -/
theorem inFormatOrder_of_discover (h : discover options classes = .ok c) : c.InFormatOrder := by
  obtain ⟨gathered, -, hfreeze⟩ := exists_gathered h
  have hc := inStep_of_discover h
  have hfrozen := frozenTo_of_freeze hfreeze
  have hnodup : ∀ e, (gathered.peers e).Nodup := fun e =>
    (peers_freeze hfreeze e).nodup_iff.mp (nodup_of_discover h e)
  have hstrings : c.strings.items.Pairwise fun a b => Text.compareUnits a b = .lt :=
    Pool.freezeWith_pairwise (.of_map _ (hnodup (.string default))) hfrozen.strings
  have htypes : c.types.items.Pairwise fun a b => Text.compareUnits a b = .lt :=
    Pool.freezeWith_pairwise (.of_map _ (hnodup (.type default))) hfrozen.types
  have hproto {p : Proto} (hp : p ∈ gathered.protos.items) : ∀ r ∈ protoNames p, c.Knows r :=
    knows_protoNames h ((Pool.frozenTo_of_freezeBy hfrozen.protos).perm.mem_iff.mpr hp)
  have hfield {f : FieldRef} (hf : f ∈ gathered.fields.items) : ∀ r ∈ fieldNames f, c.Knows r :=
    knows_fieldNames h ((Pool.frozenTo_of_freezeBy hfrozen.fields).perm.mem_iff.mpr hf)
  have hmethod {m : MethodRef} (hm : m ∈ gathered.methods.items) :
      ∀ r ∈ methodNames m, c.Knows r :=
    knows_methodNames h ((Pool.frozenTo_of_freezeBy hfrozen.methods).perm.mem_iff.mpr hm)
  exact {
    strings := hstrings
    types := htypes
    descriptors := descriptors_of_discover h hstrings htypes
    protos := Pool.freezeBy_pairwise (.of_map _ (hnodup (.proto default)))
      (fun p hp q hq => proto_of_protoRank hc (hproto hp) (hproto hq)) hfrozen.protos
    fields := Pool.freezeBy_pairwise (.of_map _ (hnodup (.field default)))
      (fun f hf g hg => field_of_fieldRank hc (hfield hf) (hfield hg)) hfrozen.fields
    methods := Pool.freezeBy_pairwise (.of_map _ (hnodup (.method default)))
      (fun m hm n hn => method_of_methodRank hc (hmethod hm) (hmethod hn)) hfrozen.methods
    knowsTypes := fun d hd => knows_of_reached h rfl
      ((reached_of_stored h (stored_type.mpr hd)).implied (.descriptor d))
    knowsProtos := fun p hp => knows_protoNames h hp
    knowsFields := fun f hf => knows_fieldNames h hf
    knowsMethods := fun m hm => knows_methodNames h hm }

/-! ## 6. The steps of freezing -/

/-- Everything that the key of a prototype is made of has a place in the catalog by which the
prototypes are sorted; and so on for fields and methods. -/
structure SortsKnown (named ranked : Catalog) : Prop where
  protos : ∀ p ∈ named.protos.items, ∀ r ∈ protoNames p, named.Knows r
  fields : ∀ f ∈ ranked.fields.items, ∀ r ∈ fieldNames f, ranked.Knows r
  methods : ∀ m ∈ ranked.methods.items, ∀ r ∈ methodNames m, ranked.Knows r

/-- The catalogs in between: strings and types have their places for good once they are sorted, and
prototypes once they are. -/
structure Stages (gathered named ranked c : Catalog) : Prop where
  names : gathered.freezeNames = .ok named
  protos : named.freezeProtos = .ok ranked
  members : ranked.freezeMembers.map freezeItems = .ok c

theorem exists_stages {gathered : Catalog} (h : gathered.freeze = .ok c) :
    ∃ named ranked, Stages gathered named ranked c := by
  obtain ⟨named, hnames, h⟩ := bind_eq_ok.mp h
  obtain ⟨ranked, hprotos, h⟩ := bind_eq_ok.mp h
  exact ⟨named, ranked, hnames, hprotos, map_eq_bind.trans h⟩

namespace Stages

variable {gathered named ranked : Catalog} (h : Stages gathered named ranked c)

include h

/-- What the prototypes are sorted by is what the frozen catalog has. -/
theorem named_eq : named = { gathered with strings := c.strings, types := c.types } := by
  obtain ⟨indexed, hmembers, rfl⟩ := map_eq_ok.mp h.members
  obtain ⟨fields, -, hmembers⟩ := bind_eq_ok.mp hmembers
  obtain ⟨methods, -, hmembers⟩ := bind_eq_ok.mp hmembers
  obtain ⟨protos, -, hprotos⟩ := bind_eq_ok.mp h.protos
  obtain ⟨strings, -, hnames⟩ := bind_eq_ok.mp h.names
  obtain ⟨types, -, hnames⟩ := bind_eq_ok.mp hnames
  cases hnames
  cases hprotos
  cases hmembers
  rfl

/-- So is what the fields and methods are sorted by. -/
theorem ranked_eq : ranked = { named with protos := c.protos } := by
  obtain ⟨indexed, hmembers, rfl⟩ := map_eq_ok.mp h.members
  obtain ⟨fields, -, hmembers⟩ := bind_eq_ok.mp hmembers
  obtain ⟨methods, -, hmembers⟩ := bind_eq_ok.mp hmembers
  obtain ⟨protos, -, hprotos⟩ := bind_eq_ok.mp h.protos
  cases hprotos
  cases hmembers
  rfl

end Stages

/-- Sorting strings and types settles their places, and sorting prototypes settles theirs. -/
theorem sortsKnown_of_discover {gathered named ranked : Catalog}
    (h : discover options classes = .ok c) (hfreeze : gathered.freeze = .ok c)
    (hs : Stages gathered named ranked c) : SortsKnown named ranked := by
  have hfrozen := frozenTo_of_freeze hfreeze
  obtain rfl := hs.ranked_eq
  obtain rfl := hs.named_eq
  refine ⟨fun p hp r hr => ?_, fun f hf r hr => ?_, fun m hm r hr => ?_⟩
  · have hk := knows_protoNames h
      ((Pool.frozenTo_of_freezeBy hfrozen.protos).perm.mem_iff.mpr hp) r hr
    simp only [protoNames, List.mem_cons, List.mem_map] at hr
    rcases hr with rfl | ⟨d, -, rfl⟩
    · exact hk
    · exact hk
  · have hk := knows_fieldNames h
      ((Pool.frozenTo_of_freezeBy hfrozen.fields).perm.mem_iff.mpr hf) r hr
    simp only [fieldNames, List.mem_cons, List.not_mem_nil, or_false] at hr
    rcases hr with rfl | rfl | rfl
    · exact hk
    · exact hk
    · exact hk
  · have hk := knows_methodNames h
      ((Pool.frozenTo_of_freezeBy hfrozen.methods).perm.mem_iff.mpr hm) r hr
    simp only [methodNames, List.mem_cons, List.not_mem_nil, or_false] at hr
    rcases hr with rfl | rfl | rfl
    · exact hk
    · exact hk
    · exact hk

/-- **The order of the pools.**  Whenever discovery succeeds, each pool is strictly increasing in
the order of the format, the map of its places tells of each item where it is, and no key by which
anything was sorted held the rank of a reference without a place. -/
theorem pools_in_order (h : discover options classes = .ok c) :
    c.InFormatOrder ∧ c.Indexed ∧
      ∃ gathered named ranked, gather options classes = .ok gathered ∧
        Stages gathered named ranked c ∧ SortsKnown named ranked := by
  obtain ⟨gathered, hg, hfreeze⟩ := exists_gathered h
  obtain ⟨named, ranked, hstages⟩ := exists_stages hfreeze
  exact ⟨inFormatOrder_of_discover h, (inStep_of_discover h).indexed, gathered, named, ranked, hg,
    hstages, sortsKnown_of_discover h hfreeze hstages⟩

/-- A class whose name has a character above U+FFFF, which comes before U+E000. -/
def wideClass : ClassDef where
  descriptor := "L\ue000;"
  superclass? := some "L𐀀;"
  fields := [{ name := "b", type := "I" }, { name := "a", type := "L𐀀;" }]

/-- The pools of the class, whose superclass comes before it. -/
theorem pools_in_order_wideClass :
    ∃ c, discover {} [wideClass] = .ok c ∧ c.types.items = ["I", "L𐀀;", "L\ue000;"] ∧
      c.types.index? "L\ue000;" = some 2 ∧ c.InFormatOrder ∧ c.Indexed ∧
        ∃ gathered named ranked, gather {} [wideClass] = .ok gathered ∧
          Stages gathered named ranked c ∧ SortsKnown named ranked := by
  have htypes : (discover {} [wideClass]).toOption.map (·.types.items) =
      some ["I", "L𐀀;", "L\ue000;"] := by
    simp only [discover, freeze, freezeNames, freezeProtos, freezeMembers, Pool.freezeBy,
      Pool.freezeWith, mergeSort_eq_sortUpTo]
    decide +kernel
  cases h : discover {} [wideClass] with
  | error cause =>
    rw [h] at htypes
    cases htypes
  | ok c =>
    rw [h] at htypes
    have hitems : c.types.items = ["I", "L𐀀;", "L\ue000;"] := Option.some.inj htypes
    refine ⟨c, rfl, hitems, ?_, pools_in_order h⟩
    exact ((inStep_of_discover h).types.index?_iff _ _).mpr (congrArg (·[2]?) hitems)

end Catalog

end Dalvik
