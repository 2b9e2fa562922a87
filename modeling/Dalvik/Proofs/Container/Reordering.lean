/-
# Declarations in another order

Classes may be given to a writer in any order, and each may declare its fields and its methods in
any order.  Discovery then enters the classes in another order and adds everything in another order;
but it finds the same, and what it finds decides the pools: there is one way to put it in the order
of the format.  So no index depends on the order of declarations.

* `ClassDef.Reordered.names`: a class names the same, whatever the order of its members;
* `reached_iff`: the same is reached;
* `PoolsAre.samePools`: pools with the same members, in the order of the format, are the same;
* `pools_of_reordered`: the statement for discovery.
-/
import Dalvik.Proofs.Container.Closure
import Dalvik.Proofs.Container.PoolOrder

namespace Dalvik

/-! ## 1. One class -/

namespace ClassDef

/-- The second class is the first with its fields and its methods in any order. -/
structure Reordered (d d' : ClassDef) : Prop where
  descriptor : d'.descriptor = d.descriptor
  flags : d'.flags = d.flags
  superclass : d'.superclass? = d.superclass?
  interfaces : d'.interfaces = d.interfaces
  sourceFile : d'.sourceFile? = d.sourceFile?
  annotations : d'.annotations = d.annotations
  fields : d.fields.Perm d'.fields
  methods : d.methods.Perm d'.methods

namespace Reordered

variable {d d' : ClassDef}

theorem symm (h : d.Reordered d') : d'.Reordered d where
  descriptor := h.descriptor.symm
  flags := h.flags.symm
  superclass := h.superclass.symm
  interfaces := h.interfaces.symm
  sourceFile := h.sourceFile.symm
  annotations := h.annotations.symm
  fields := h.fields.symm
  methods := h.methods.symm

theorem membersDiffer (h : d.Reordered d') (hd : d.MembersDiffer) : d'.MembersDiffer :=
  ⟨(h.fields.map _).nodup_iff.mp hd.1, (h.methods.map _).nodup_iff.mp hd.2⟩

theorem hasSet (h : d.Reordered d') {set : List Annotation} (hs : d.HasSet set) :
    d'.HasSet set := by
  rcases hs with rfl | ⟨f, hf, rfl⟩ | ⟨m, hm, hs⟩
  · exact .inl h.annotations.symm
  · exact .inr (.inl ⟨f, h.fields.mem_iff.mp hf, rfl⟩)
  · exact .inr (.inr ⟨m, h.methods.mem_iff.mp hm, hs⟩)

theorem hasAnnotation (h : d.Reordered d') {a : Annotation} (ha : d.HasAnnotation a) :
    d'.HasAnnotation a := by
  obtain ⟨set, hs, ha⟩ := ha
  exact ⟨set, h.hasSet hs, ha⟩

theorem hasBody (h : d.Reordered d') {b : Body} (hb : d.HasBody b) : d'.HasBody b := by
  obtain ⟨m, hm, hb⟩ := hb
  exact ⟨m, h.methods.mem_iff.mp hm, hb⟩

theorem initial (h : d.Reordered d') {v : EncodedValue} (hv : d.Initial v) : d'.Initial v := by
  obtain ⟨f, hf, hv⟩ := hv
  exact ⟨f, h.fields.mem_iff.mp hf, hv⟩

/-- The array of initial values is the only thing for which the members have to differ: it is in the
order of their names and types. -/
theorem owns (h : d.Reordered d') (hd : d.MembersDiffer) {e : Entity} (ho : d.Owns e) :
    d'.Owns e := by
  cases ho with
  | interfaces hne =>
    rw [← h.interfaces] at hne ⊢
    exact .interfaces hne
  | staticValues hne =>
    rw [staticValues_eq_of_perm h.fields hd.1] at hne ⊢
    exact .staticValues hne
  | annotationItem ha => exact .annotationItem (h.hasAnnotation ha)
  | annotationSet hs hne => exact .annotationSet (h.hasSet hs) hne
  | setList hm hp => exact .setList (h.methods.mem_iff.mp hm) hp

/-- **A class names the same**, in whatever order it declares its members. -/
theorem names (h : d.Reordered d') (hd : d.MembersDiffer) {e : Entity} (hn : d.Names e) :
    d'.Names e := by
  cases hn with
  | self =>
    rw [← h.descriptor]
    exact .self
  | superclass hs => exact .superclass (h.superclass.trans hs)
  | interface hs => exact .interface (h.interfaces ▸ hs)
  | sourceFile hs => exact .sourceFile (h.sourceFile.trans hs)
  | @field f hf =>
    have href : d.fieldRef f = d'.fieldRef f := by rw [fieldRef, fieldRef, h.descriptor]
    rw [href]
    exact .field (h.fields.mem_iff.mp hf)
  | @method m hm =>
    have href : d.methodRef m = d'.methodRef m := by rw [methodRef, methodRef, h.descriptor]
    rw [href]
    exact .method (h.methods.mem_iff.mp hm)
  | initial hv hn => exact .initial (h.initial hv) hn
  | annotated ha hn => exact .annotated (h.hasAnnotation ha) hn
  | reference hb hr he => exact .reference (h.hasBody hb) hr he
  | handler hb hs => exact .handler (h.hasBody hb) hs
  | owned ho => exact .owned (h.owns hd ho)

end Reordered

end ClassDef

/-! ## 2. All classes -/

namespace Container

/-- The second list has the classes of the first in any order, each with its members in any
order. -/
def Reordered (classes classes' : List ClassDef) : Prop :=
  ∃ between, classes.Perm between ∧ List.Forall₂ ClassDef.Reordered between classes'

namespace Reordered

variable {classes classes' : List ClassDef}

theorem symm (h : Reordered classes classes') : Reordered classes' classes := by
  obtain ⟨between, hp, hr⟩ := h
  obtain ⟨other, ho, hp'⟩ := List.perm_comp_forall₂ hp hr
  exact ⟨other, hp'.symm, ho.flip.imp fun _ _ h => h.symm⟩

theorem exists_of_mem (h : Reordered classes classes') {d : ClassDef} (hd : d ∈ classes) :
    ∃ d' ∈ classes', d.Reordered d' := by
  obtain ⟨between, hp, hr⟩ := h
  exact exists_of_mem_left hr d (hp.mem_iff.mp hd)

theorem nodup (h : Reordered classes classes') (hn : (classes.map (·.descriptor)).Nodup) :
    (classes'.map (·.descriptor)).Nodup := by
  obtain ⟨between, hp, hr⟩ := h
  have hsame : between.map (·.descriptor) = classes'.map (·.descriptor) := by
    rw [← List.forall₂_eq_eq_eq, List.forall₂_map_left_iff, List.forall₂_map_right_iff]
    exact hr.imp fun _ _ h => h.descriptor.symm
  rw [← hsame]
  exact (hp.map _).nodup_iff.mp hn

variable (h : Reordered classes classes') (hn : (classes.map (·.descriptor)).Nodup)
  {options : Options}

include h hn

theorem exists_kept {d : ClassDef} (hd : d.Kept classes) :
    ∃ d' : ClassDef, d'.Kept classes' ∧ d.Reordered d' := by
  obtain ⟨d', hd', hr⟩ := h.exists_of_mem (ClassDef.kept_iff_mem hn |>.mp hd)
  exact ⟨d', (ClassDef.kept_iff_mem (h.nodup hn)).mpr hd', hr⟩

theorem membersDiffer (hd : ∀ d : ClassDef, d.Kept classes → d.MembersDiffer) :
    ∀ d' : ClassDef, d'.Kept classes' → d'.MembersDiffer := by
  intro d' hd'
  obtain ⟨d, hk, hr⟩ := h.symm.exists_kept (h.nodup hn) hd'
  exact hr.symm.membersDiffer (hd d hk)

theorem reached (hd : ∀ d : ClassDef, d.Kept classes → d.MembersDiffer) {e : Entity}
    (he : Reached options classes e) : Reached options classes' e := by
  induction he with
  | named hk hnames =>
    obtain ⟨d', hk', hr⟩ := h.exists_kept hn hk
    exact .named hk' (hr.names (hd _ hk) hnames)
  | implied _ hi ih => exact .implied ih hi
  | emptySet ho hk hm hp =>
    obtain ⟨d', hk', hr⟩ := h.exists_kept hn hk
    exact .emptySet ho hk' (hr.methods.mem_iff.mp hm) hp

/-- **The same is reached.** -/
theorem reached_iff (hd : ∀ d : ClassDef, d.Kept classes → d.MembersDiffer) {e : Entity} :
    Reached options classes e ↔ Reached options classes' e :=
  ⟨h.reached hn hd, h.symm.reached (h.nodup hn) (h.membersDiffer hn hd)⟩

/-- Discovery that succeeds on classes succeeds on them in another order. -/
theorem isOk_discover (hok : ∃ c, Catalog.discover options classes = .ok c) :
    ∃ c', Catalog.discover options classes' = .ok c' := by
  obtain ⟨hd, hroom⟩ := Catalog.discover_isOk_iff.mp hok
  refine Catalog.discover_isOk_iff.mpr ⟨h.membersDiffer hn hd, ?_⟩
  intro e things ha hs
  exact hroom e things ha fun x hx => ⟨(hs x hx).1, (h.reached_iff hn hd).mpr (hs x hx).2⟩

end Reordered

end Container

/-! ## 3. Pools -/

namespace Catalog

/-- The five pools of two catalogs have the same items at the same places. -/
structure SamePools (c c' : Catalog) : Prop where
  strings : c.strings.items = c'.strings.items
  types : c.types.items = c'.types.items
  protos : c.protos.items = c'.protos.items
  fields : c.fields.items = c'.fields.items
  methods : c.methods.items = c'.methods.items

section

variable {c c' : Catalog}

/-- Same pools give same indices. -/
theorem SamePools.indexer_eq (h : c.SamePools c') (hs : c.InStep) (hs' : c'.InStep) :
    c.indexer = c'.indexer := by
  funext r
  have hplace : c.place? r = c'.place? r := by
    cases r with
    | string s => exact hs.strings.index?_congr hs'.strings h.strings s
    | type d => exact hs.types.index?_congr hs'.types h.types d
    | proto p => exact hs.protos.index?_congr hs'.protos h.protos p
    | field f => exact hs.fields.index?_congr hs'.fields h.fields f
    | method m => exact hs.methods.index?_congr hs'.methods h.methods m
    | _ => rfl
  rw [indexer, indexer, hplace]

/-- **One way to put things in order.**  Pools with the same members, in the order of the format,
are the same: strings and types first, by which the prototypes are ordered, and then the fields and
the methods, which are ordered by all of these. -/
theorem PoolsAre.samePools {stock : Entity → Prop} (h : c.PoolsAre stock) (h' : c'.PoolsAre stock)
    (hs : c.InStep) (hs' : c'.InStep) (ho : c.InFormatOrder) (ho' : c'.InFormatOrder) :
    c.SamePools c' := by
  have hperm {α : Type} {items items' : List α} {item : α → Entity} (hn : items.Nodup)
      (hn' : items'.Nodup) (hs : ∀ a, a ∈ items ↔ stock (item a))
      (hs' : ∀ a, a ∈ items' ↔ stock (item a)) : items.Perm items' :=
    (List.perm_ext_iff_of_nodup hn hn').mpr fun a => (hs a).trans (hs' a).symm
  have hstrings : c.strings.items = c'.strings.items :=
    eq_of_pairwise_lt ho.strings ho'.strings
      (hperm h.nodup_strings h'.nodup_strings h.strings h'.strings)
  have htypes : c.types.items = c'.types.items :=
    eq_of_pairwise_lt ho.types ho'.types (hperm h.nodup_types h'.nodup_types h.types h'.types)
  have hstring (s : String) : c.rank (.string s) = c'.rank (.string s) := by
    rw [rank, rank, place?, place?, hs.strings.index?_congr hs'.strings hstrings]
  have htype (d : String) : c.rank (.type d) = c'.rank (.type d) := by
    rw [rank, rank, place?, place?, hs.types.index?_congr hs'.types htypes]
  have hprotoRank : c'.protoRank = c.protoRank := by
    funext p
    simp only [protoRank, htype]
  have hprotos : c.protos.items = c'.protos.items := by
    refine eq_of_pairwise_lt ho.protos ?_
      (hperm h.nodup_protos h'.nodup_protos h.protos h'.protos)
    rw [← hprotoRank]
    exact ho'.protos
  have hproto (p : Proto) : c.rank (.proto p) = c'.rank (.proto p) := by
    rw [rank, rank, place?, place?, hs.protos.index?_congr hs'.protos hprotos]
  have hfieldRank : c'.fieldRank = c.fieldRank := by
    funext f
    simp only [fieldRank, htype, hstring]
  have hmethodRank : c'.methodRank = c.methodRank := by
    funext m
    simp only [methodRank, htype, hstring, hproto]
  refine ⟨hstrings, htypes, hprotos, ?_, ?_⟩
  · refine eq_of_pairwise_lt ho.fields ?_
      (hperm h.nodup_fields h'.nodup_fields h.fields h'.fields)
    rw [← hfieldRank]
    exact ho'.fields
  · refine eq_of_pairwise_lt ho.methods ?_
      (hperm h.nodup_methods h'.nodup_methods h.methods h'.methods)
    rw [← hmethodRank]
    exact ho'.methods

end

variable {options : Container.Options} {classes classes' : List ClassDef}

/-- **Indices do not depend on the order of declarations.**  Of two lists of classes with different
descriptors, one the other in another order of the classes and of the members of each, discovery
succeeds on both or on neither; and if it does, all five pools are the same, item by item, and every
reference has the same index. -/
theorem pools_of_reordered (h : Container.Reordered classes classes')
    (hn : (classes.map (·.descriptor)).Nodup) :
    ((∃ c, discover options classes = .ok c) ↔ ∃ c', discover options classes' = .ok c') ∧
      ∀ c c', discover options classes = .ok c → discover options classes' = .ok c' →
        c.SamePools c' ∧ c.indexer = c'.indexer := by
  refine ⟨⟨h.isOk_discover hn, h.symm.isOk_discover (h.nodup hn)⟩, ?_⟩
  intro c c' hc hc'
  have hreached : Reached options classes' = Reached options classes := by
    funext e
    exact propext (h.reached_iff hn (discover_eq_ok hc).1).symm
  have hpools := poolsAre_of_discover hc'
  rw [hreached] at hpools
  have hs := inStep_of_discover hc
  have hs' := inStep_of_discover hc'
  have hsame : c.SamePools c' := (poolsAre_of_discover hc).samePools hpools hs hs'
    (inFormatOrder_of_discover hc) (inFormatOrder_of_discover hc')
  exact ⟨hsame, hsame.indexer_eq hs hs'⟩

/-- A class with two fields, one of which has an initial value, and its superclass. -/
def circleAndShape : List ClassDef :=
  [{ descriptor := "LCircle;", superclass? := some "LShape;",
     fields := [{ name := "unit", type := "I", flags := ⟨8⟩, value? := some (.int 1) },
                { name := "radius", type := "J" }] },
   { descriptor := "LShape;" }]

/-- The same, the superclass first and the fields the other way round. -/
def shapeAndCircle : List ClassDef :=
  [{ descriptor := "LShape;" },
   { descriptor := "LCircle;", superclass? := some "LShape;",
     fields := [{ name := "radius", type := "J" },
                { name := "unit", type := "I", flags := ⟨8⟩, value? := some (.int 1) }] }]

theorem reordered_shapeAndCircle : Container.Reordered circleAndShape shapeAndCircle := by
  refine ⟨circleAndShape.reverse, (List.reverse_perm _).symm, .cons ?_ (.cons ?_ .nil)⟩
  · exact ⟨rfl, rfl, rfl, rfl, rfl, rfl, .refl _, .refl _⟩
  · exact ⟨rfl, rfl, rfl, rfl, rfl, rfl, .swap .., .refl _⟩

/-- The pools of the two classes, in both orders. -/
theorem pools_of_reordered_shapeAndCircle :
    (circleAndShape.map (·.descriptor)).Nodup ∧
      Container.Reordered circleAndShape shapeAndCircle ∧
        ∃ c c', discover {} circleAndShape = .ok c ∧ discover {} shapeAndCircle = .ok c' ∧
          c.types.items = ["I", "J", "LCircle;", "LShape;"] ∧ c.SamePools c' := by
  have hn : (circleAndShape.map (·.descriptor)).Nodup := by decide
  have htypes : (discover {} circleAndShape).toOption.map (·.types.items) =
      some ["I", "J", "LCircle;", "LShape;"] := by
    simp only [discover, freeze, freezeNames, freezeProtos, freezeMembers, Pool.freezeBy,
      Pool.freezeWith, mergeSort_eq_sortUpTo]
    decide +kernel
  obtain ⟨hok, hsame⟩ := pools_of_reordered reordered_shapeAndCircle hn
  cases hc : discover {} circleAndShape with
  | error cause =>
    rw [hc] at htypes
    cases htypes
  | ok c =>
    rw [hc] at htypes
    obtain ⟨c', hc'⟩ := hok.mp ⟨c, hc⟩
    exact ⟨hn, reordered_shapeAndCircle, c, c', rfl, hc', Option.some.inj htypes,
      (hsame c c' hc hc').1⟩

end Catalog

end Dalvik
