/-
# What is reached from the classes of a container

The rules of discovery, as a relation and apart from any walk.  `ClassDef.Names` says what a class
names itself: its own type, its superclass and interfaces, its source file, its members, what their
constants, annotations and code name.  `Entity.Implies` says what a thing names: a type its
descriptor, a prototype its short form and its types, a field and a method their parts.  `Reached`
closes the first under the second, over the classes that are kept.

`mem_listing` says that the lists of the walk have exactly what is reached: soundness by the parts
of a class, one lemma each, and completeness by induction on the rules.
-/
import Dalvik.Proofs.Class.Order
import Dalvik.Proofs.Class.StaticValues
import Dalvik.Proofs.Container.Walk
import Dalvik.Proofs.Value.Inside

namespace Dalvik

/-! ## 1. The rules -/

/-- The thing that a reference is to; bare indices, call sites and method handles are to none. -/
def Reference.entity? : Reference → Option Entity
  | .string value => some (.string value)
  | .type descriptor => some (.type descriptor)
  | .field f => some (.field f)
  | .method m => some (.method m)
  | .proto p => some (.proto p)
  | .callSite _ | .methodHandle _ | .raw _ _ => none

/-- What a value names itself. -/
inductive EncodedValue.NamesAlone : EncodedValue → Entity → Prop
  | string (s : String) : NamesAlone (.string s) (.string s)
  | type (d : String) : NamesAlone (.type d) (.type d)
  | field (f : FieldRef) : NamesAlone (.field f) (.field f)
  | enum (f : FieldRef) : NamesAlone (.enum f) (.field f)
  | method (m : MethodRef) : NamesAlone (.method m) (.method m)
  | methodType (p : Proto) : NamesAlone (.methodType p) (.proto p)
  | annotationType (a : EncodedAnnotation) : NamesAlone (.annotationValue a) (.type a.type)
  | elementName {a : EncodedAnnotation} {name : String} {v : EncodedValue}
    (h : (name, v) ∈ a.elements) : NamesAlone (.annotationValue a) (.string name)

/-- What a value names, or some value inside it. -/
def EncodedValue.Names (v : EncodedValue) (e : Entity) : Prop :=
  ∃ w : EncodedValue, w.Inside v ∧ w.NamesAlone e

/-- A zero names nothing. -/
theorem EncodedValue.zero_names {descriptor : String} {e : Entity}
    (h : (EncodedValue.zero descriptor).Names e) : False := by
  obtain ⟨w, hw, h⟩ := h
  unfold zero zeroOf at hw
  split at hw <;> cases hw <;> cases h

/-- What an annotation names: as much as a value that holds it. -/
def Annotation.Names (a : Annotation) (e : Entity) : Prop :=
  (EncodedValue.annotationValue a.content).Names e

/-- An instruction of the code holds the reference. -/
def Body.Refers (b : Body) (r : Reference) : Prop :=
  ∃ i ∈ b.instructions, r ∈ i.references

/-- A handler of the code catches the type. -/
def Body.Catches (b : Body) (descriptor : String) : Prop :=
  ∃ t ∈ b.tries, ∃ h ∈ t.handlers, h.type? = some descriptor

namespace ClassDef

/-- The annotations are those of the class, of a member, or of a parameter. -/
def HasSet (d : ClassDef) (set : List Annotation) : Prop :=
  set = d.annotations ∨ (∃ f ∈ d.fields, set = f.annotations) ∨
    ∃ m ∈ d.methods, set = m.annotations ∨ set ∈ m.parameterAnnotations

/-- The annotation is on the class, on a member, or on a parameter. -/
def HasAnnotation (d : ClassDef) (a : Annotation) : Prop :=
  ∃ set, d.HasSet set ∧ a ∈ set

/-- The code is that of a method. -/
def HasBody (d : ClassDef) (b : Body) : Prop :=
  ∃ m ∈ d.methods, m.body? = some b

/-- The items of a class that are shared by content. -/
inductive Owns (d : ClassDef) : Entity → Prop
  | interfaces (h : d.interfaces ≠ []) : Owns d (.typeList d.interfaces)
  | staticValues (h : d.staticValues ≠ []) : Owns d (.encodedArray d.staticValues)
  | annotationItem {a : Annotation} (ha : d.HasAnnotation a) : Owns d (.annotationItem a)
  | annotationSet {set : List Annotation} (hs : d.HasSet set) (h : set ≠ []) :
    Owns d (.annotationSet (AnnotationSet.sorted set))
  | setList {m : Method} (hm : m ∈ d.methods) (h : m.hasParameterAnnotations = true) :
    Owns d (.setList (m.parameterAnnotations.map AnnotationSet.sorted))

/-- **What a class names** itself. -/
inductive Names (d : ClassDef) : Entity → Prop
  | self : Names d (.type d.descriptor)
  | superclass {s : String} (h : d.superclass? = some s) : Names d (.type s)
  | interface {s : String} (h : s ∈ d.interfaces) : Names d (.type s)
  | sourceFile {s : String} (h : d.sourceFile? = some s) : Names d (.string s)
  | field {f : Field} (h : f ∈ d.fields) : Names d (.field (d.fieldRef f))
  | method {m : Method} (h : m ∈ d.methods) : Names d (.method (d.methodRef m))
  | initial {v : EncodedValue} {e : Entity} (hv : d.Initial v) (h : v.Names e) : Names d e
  | annotated {a : Annotation} {e : Entity} (ha : d.HasAnnotation a) (h : a.Names e) : Names d e
  | reference {b : Body} {r : Reference} {e : Entity} (hb : d.HasBody b) (hr : b.Refers r)
    (h : r.entity? = some e) : Names d e
  | handler {b : Body} {s : String} (hb : d.HasBody b) (hs : b.Catches s) : Names d (.type s)
  | owned {e : Entity} (h : d.Owns e) : Names d e

end ClassDef

/-- What a thing names. -/
inductive Entity.Implies : Entity → Entity → Prop
  | descriptor (d : String) : Implies (.type d) (.string d)
  | shorty (p : Proto) : Implies (.proto p) (.string p.shorty)
  | returnType (p : Proto) : Implies (.proto p) (.type p.returnType)
  | parameter {p : Proto} {d : String} (h : d ∈ p.parameters) : Implies (.proto p) (.type d)
  | parameters {p : Proto} (h : p.parameters ≠ []) : Implies (.proto p) (.typeList p.parameters)
  | fieldOwner (f : FieldRef) : Implies (.field f) (.type f.owner)
  | fieldName (f : FieldRef) : Implies (.field f) (.string f.name)
  | fieldType (f : FieldRef) : Implies (.field f) (.type f.type)
  | methodOwner (m : MethodRef) : Implies (.method m) (.type m.owner)
  | methodName (m : MethodRef) : Implies (.method m) (.string m.name)
  | methodProto (m : MethodRef) : Implies (.method m) (.proto m.proto)

/-- **What is reached** from classes: what those of them name that are kept, all that this implies,
and the empty set where a list of sets may refer to it. -/
inductive Reached (options : Container.Options) (classes : List ClassDef) : Entity → Prop
  | named {d : ClassDef} {e : Entity} (hd : d.Kept classes) (h : d.Names e) :
    Reached options classes e
  | implied {e x : Entity} (he : Reached options classes e) (h : e.Implies x) :
    Reached options classes x
  | emptySet {d : ClassDef} {m : Method} (ho : options.emptySet = true) (hd : d.Kept classes)
    (hm : m ∈ d.methods) (h : m.hasParameterAnnotations = true) :
    Reached options classes (.annotationSet [])

namespace Entity

/-! ## 2. What the lists have is reached -/

section Sound

/-- What is implied by a thing in `R` is in `R`. -/
def Closed (R : Entity → Prop) : Prop :=
  ∀ ⦃e x⦄, R e → e.Implies x → R x

variable {R : Entity → Prop}

theorem forall_ofType (hR : Closed R) {d : String} (h : R (.type d)) : ∀ x ∈ ofType d, R x := by
  simp only [ofType, List.forall_mem_cons]
  exact ⟨h, hR h (.descriptor d), fun x hx => (List.not_mem_nil hx).elim⟩

theorem forall_ofTypeList (hR : Closed R) {l : List String} (h : ∀ d ∈ l, R (.type d))
    (hl : l ≠ [] → R (.typeList l)) : ∀ x ∈ ofTypeList l, R x := by
  simp only [ofTypeList, List.forall_mem_append]
  refine ⟨fun x hx => ?_, ?_⟩
  · obtain ⟨d, hd, hx⟩ := List.mem_flatMap.mp hx
    exact forall_ofType hR (h d hd) x hx
  · split
    case isTrue => exact fun x hx => (List.not_mem_nil hx).elim
    case isFalse he =>
      intro x hx
      rw [List.mem_singleton.mp hx]
      exact hl fun e => he (by rw [e]; rfl)

theorem forall_ofProto (hR : Closed R) {p : Proto} (h : R (.proto p)) : ∀ x ∈ ofProto p, R x := by
  simp only [ofProto, List.forall_mem_cons, List.forall_mem_append]
  refine ⟨h, hR h (.shorty p), forall_ofType hR (hR h (.returnType p)), ?_⟩
  exact forall_ofTypeList hR (fun d hd => hR h (.parameter hd)) fun hl => hR h (.parameters hl)

theorem forall_ofField (hR : Closed R) {f : FieldRef} (h : R (.field f)) :
    ∀ x ∈ ofField f, R x := by
  simp only [ofField, List.forall_mem_cons, List.forall_mem_append]
  exact ⟨h, forall_ofType hR (hR h (.fieldOwner f)), hR h (.fieldName f),
    forall_ofType hR (hR h (.fieldType f))⟩

theorem forall_ofMethod (hR : Closed R) {m : MethodRef} (h : R (.method m)) :
    ∀ x ∈ ofMethod m, R x := by
  simp only [ofMethod, List.forall_mem_cons, List.forall_mem_append]
  exact ⟨h, forall_ofType hR (hR h (.methodOwner m)), hR h (.methodName m),
    forall_ofProto hR (hR h (.methodProto m))⟩

theorem forall_ofReference (hR : Closed R) {r : Reference} (h : ∀ e, r.entity? = some e → R e) :
    ∀ x ∈ ofReference r, R x := by
  cases r with
  | string s => simpa [ofReference] using h _ rfl
  | type d => exact forall_ofType hR (h _ rfl)
  | field f => exact forall_ofField hR (h _ rfl)
  | method m => exact forall_ofMethod hR (h _ rfl)
  | proto p => exact forall_ofProto hR (h _ rfl)
  | _ => exact fun x hx => (List.not_mem_nil hx).elim

theorem forall_ofValueAlone (hR : Closed R) {v : EncodedValue} (h : ∀ e, v.NamesAlone e → R e) :
    ∀ x ∈ ofValueAlone v, R x := by
  cases v with
  | string s => simpa [ofValueAlone] using h _ (.string s)
  | type d => exact forall_ofType hR (h _ (.type d))
  | field f => exact forall_ofField hR (h _ (.field f))
  | enum f => exact forall_ofField hR (h _ (.enum f))
  | method m => exact forall_ofMethod hR (h _ (.method m))
  | methodType p => exact forall_ofProto hR (h _ (.methodType p))
  | annotationValue a =>
    simp only [ofValueAlone, List.forall_mem_append]
    refine ⟨forall_ofType hR (h _ (.annotationType a)), fun x hx => ?_⟩
    obtain ⟨⟨name, v⟩, he, hx⟩ := List.mem_flatMap.mp hx
    rw [List.mem_singleton.mp hx]
    exact h _ (.elementName he)
  | _ => exact fun x hx => (List.not_mem_nil hx).elim

theorem forall_ofValue (hR : Closed R) {v : EncodedValue} (h : ∀ e, v.Names e → R e) :
    ∀ x ∈ ofValue v, R x := by
  intro x hx
  obtain ⟨w, hw, hx⟩ := List.mem_flatMap.mp hx
  refine forall_ofValueAlone hR (fun e he => h e ⟨w, ?_, he⟩) x hx
  exact EncodedValue.mem_subvalues.mp hw

theorem forall_ofAnnotation (hR : Closed R) {a : Annotation} (h : ∀ e, a.Names e → R e)
    (ha : R (.annotationItem a)) : ∀ x ∈ ofAnnotation a, R x := by
  simp only [List.forall_mem_append, List.forall_mem_singleton, ofAnnotation]
  refine ⟨forall_ofType hR (h _ ⟨_, .self, .annotationType _⟩), fun x hx => ?_, ha⟩
  obtain ⟨⟨name, v⟩, he, hx⟩ := List.mem_flatMap.mp hx
  rcases List.mem_cons.mp hx with rfl | hx
  · exact h _ ⟨_, .self, .elementName he⟩
  · refine forall_ofValue hR (fun e hn => ?_) x hx
    obtain ⟨w, hw, hn⟩ := hn
    exact h e ⟨w, .element he hw, hn⟩

/-- The annotations of a set, and the set, are in `R`. -/
theorem forall_ofSet (hR : Closed R) {set : List Annotation}
    (h : ∀ a ∈ set, (∀ e, a.Names e → R e) ∧ R (.annotationItem a))
    (hs : set ≠ [] → R (.annotationSet (AnnotationSet.sorted set))) : ∀ x ∈ ofSet set, R x := by
  simp only [ofSet, List.forall_mem_append]
  refine ⟨fun x hx => ?_, ?_⟩
  · obtain ⟨a, ha, hx⟩ := List.mem_flatMap.mp hx
    exact forall_ofAnnotation hR (h a ha).1 (h a ha).2 x hx
  · split
    case isTrue => exact fun x hx => (List.not_mem_nil hx).elim
    case isFalse he =>
      intro x hx
      rw [List.mem_singleton.mp hx]
      exact hs fun e => he (by rw [e]; rfl)

theorem forall_ofStaticValues (hR : Closed R) {d : ClassDef}
    (h : ∀ v e, d.Initial v → v.Names e → R e)
    (hs : d.staticValues ≠ [] → R (.encodedArray d.staticValues)) :
    ∀ x ∈ ofStaticValues d.staticValues, R x := by
  rw [ofStaticValues]
  split
  case isTrue => exact fun x hx => (List.not_mem_nil hx).elim
  case isFalse he =>
    simp only [List.forall_mem_append, List.forall_mem_singleton]
    refine ⟨fun x hx => ?_, hs fun e => he (by rw [e]; rfl)⟩
    obtain ⟨v, hv, hx⟩ := List.mem_flatMap.mp hx
    refine forall_ofValue hR (fun e hn => ?_) x hx
    rcases ClassDef.initial_or_zero hv with hi | ⟨t, rfl⟩
    · exact h v e hi hn
    · exact (EncodedValue.zero_names hn).elim

theorem forall_ofBody (hR : Closed R) {b : Body}
    (hr : ∀ r e, b.Refers r → r.entity? = some e → R e) (hc : ∀ s, b.Catches s → R (.type s)) :
    ∀ x ∈ ofBody b, R x := by
  simp only [ofBody, List.forall_mem_append]
  refine ⟨fun x hx => ?_, fun x hx => ?_⟩
  · obtain ⟨i, hi, hx⟩ := List.mem_flatMap.mp hx
    obtain ⟨r, hm, hx⟩ := List.mem_flatMap.mp hx
    exact forall_ofReference hR (fun e he => hr r e ⟨i, hi, hm⟩ he) x hx
  · obtain ⟨t, ht, hx⟩ := List.mem_flatMap.mp hx
    obtain ⟨handler, hh, hx⟩ := List.mem_flatMap.mp hx
    obtain ⟨s, hs, hx⟩ := List.mem_flatMap.mp hx
    exact forall_ofType hR (hc s ⟨t, ht, handler, hh, Option.mem_toList.mp hs⟩) x hx

/-- What the list of a class has, is in `R` if what the class names is. -/
theorem forall_ofClass (hR : Closed R) {d : ClassDef} (h : ∀ e, d.Names e → R e) :
    ∀ x ∈ ofClass d, R x := by
  have hset : ∀ set, d.HasSet set → ∀ x ∈ ofSet set, R x := fun set hs =>
    forall_ofSet hR (fun a ha => ⟨fun e he => h e (.annotated ⟨set, hs, ha⟩ he),
      h _ (.owned (.annotationItem ⟨set, hs, ha⟩))⟩) fun hne => h _ (.owned (.annotationSet hs hne))
  simp only [ofClass, ofClassAlone, List.forall_mem_append]
  refine ⟨⟨forall_ofType hR (h _ .self), fun x hx => ?_, ?_, fun x hx => ?_,
    hset _ (.inl rfl), ?_⟩, fun x hx => ?_, fun x hx => ?_⟩
  · obtain ⟨s, hs, hx⟩ := List.mem_flatMap.mp hx
    exact forall_ofType hR (h _ (.superclass (Option.mem_toList.mp hs))) x hx
  · exact forall_ofTypeList hR (fun s hs => h _ (.interface hs)) fun hne =>
      h _ (.owned (.interfaces hne))
  · obtain ⟨s, hs, hx⟩ := List.mem_flatMap.mp hx
    rw [List.mem_singleton.mp hx]
    exact h _ (.sourceFile (Option.mem_toList.mp hs))
  · exact forall_ofStaticValues hR (fun v e hv he => h e (.initial hv he))
      fun hne => h _ (.owned (.staticValues hne))
  · obtain ⟨f, hf, hx⟩ := List.mem_flatMap.mp hx
    rcases List.mem_append.mp hx with hx | hx
    · exact forall_ofField hR (h _ (.field hf)) x hx
    · exact hset _ (.inr (.inl ⟨f, hf, rfl⟩)) x hx
  · obtain ⟨m, hm, hx⟩ := List.mem_flatMap.mp hx
    simp only [ofMethodOf, List.mem_append] at hx
    rcases hx with hx | hx | hx | hx
    · exact forall_ofMethod hR (h _ (.method hm)) x hx
    · exact hset _ (.inr (.inr ⟨m, hm, .inl rfl⟩)) x hx
    · rw [ofParameters] at hx
      split at hx
      case isFalse => exact (List.not_mem_nil hx).elim
      case isTrue hp =>
        rcases List.mem_append.mp hx with hx | hx
        · obtain ⟨set, hs, hx⟩ := List.mem_flatMap.mp hx
          exact hset _ (.inr (.inr ⟨m, hm, .inr hs⟩)) x hx
        · rw [List.mem_singleton.mp hx]
          exact h _ (.owned (.setList hm hp))
    · obtain ⟨b, hb, hx⟩ := List.mem_flatMap.mp hx
      have hb : d.HasBody b := ⟨m, hm, Option.mem_toList.mp hb⟩
      exact forall_ofBody hR (fun r e hr he => h e (.reference hb hr he))
        (fun s hs => h _ (.handler hb hs)) x hx

end Sound

/-! ## 3. What is reached is in the lists -/

theorem Implies.mem_needs {e x : Entity} (h : e.Implies x) : x ∈ e.needs := by
  cases h with
  | parameter h =>
    simp only [needs, ofTypeList, List.mem_cons, List.mem_append, List.mem_flatMap]
    exact .inr (.inr (.inl ⟨_, h, List.mem_cons_self ..⟩))
  | @parameters p h =>
    have he : p.parameters.isEmpty = false := by simpa using h
    simp [needs, ofTypeList, he]
  | _ => simp [needs, ofType, ofProto]

theorem entity_mem_ofReference {r : Reference} {e : Entity} (h : r.entity? = some e) :
    e ∈ ofReference r := by
  cases r <;> cases h <;> exact List.mem_cons_self ..

theorem NamesAlone.mem_ofValueAlone {v : EncodedValue} {e : Entity} (h : v.NamesAlone e) :
    e ∈ ofValueAlone v := by
  cases h with
  | elementName h =>
    refine List.mem_append_right _ (List.mem_flatMap.mpr ⟨_, h, List.mem_cons_self ..⟩)
  | _ => simp [ofValueAlone, ofType, ofField, ofMethod, ofProto]

theorem names_mem_ofValue {v : EncodedValue} {e : Entity} (h : v.Names e) : e ∈ ofValue v := by
  obtain ⟨w, hw, h⟩ := h
  exact List.mem_flatMap.mpr ⟨w, hw.mem_subvalues, NamesAlone.mem_ofValueAlone h⟩

theorem annotation_names_mem {a : Annotation} {e : Entity} (h : a.Names e) :
    e ∈ ofAnnotation a := by
  obtain ⟨w, hw, h⟩ := h
  cases hw with
  | self => cases h with
    | annotationType => exact List.mem_append_left _ (List.mem_cons_self ..)
    | elementName h =>
      refine List.mem_append_right _ (List.mem_append_left _ ?_)
      exact List.mem_flatMap.mpr ⟨_, h, List.mem_cons_self ..⟩
  | element he hi =>
    refine List.mem_append_right _ (List.mem_append_left _ ?_)
    exact List.mem_flatMap.mpr ⟨_, he, List.mem_cons_of_mem _ (names_mem_ofValue ⟨w, hi, h⟩)⟩

theorem ofAnnotation_subset {a : Annotation} {set : List Annotation} (h : a ∈ set) :
    ofAnnotation a ⊆ ofSet set :=
  fun _ hx => List.mem_append_left _ (List.mem_flatMap.mpr ⟨a, h, hx⟩)

theorem ofSet_subset {d : ClassDef} {set : List Annotation} (h : d.HasSet set) :
    ofSet set ⊆ ofClass d := by
  intro x hx
  simp only [ofClass, ofClassAlone, List.mem_append, List.mem_flatMap]
  rcases h with rfl | ⟨f, hf, rfl⟩ | ⟨m, hm, rfl | hs⟩
  · tauto
  · exact .inr (.inl ⟨f, hf, List.mem_append_right _ hx⟩)
  · refine .inr (.inr ⟨m, hm, ?_⟩)
    simp only [ofMethodOf, List.mem_append]
    tauto
  · refine .inr (.inr ⟨m, hm, ?_⟩)
    simp only [ofMethodOf, List.mem_append]
    have hp : x ∈ ofParameters m := by
      have hne : set.isEmpty = false := by
        cases set with
        | nil => exact (List.not_mem_nil hx).elim
        | cons => rfl
      have hany : m.hasParameterAnnotations = true :=
        List.any_eq_true.mpr ⟨set, hs, by simp [hne]⟩
      rw [ofParameters, if_pos hany]
      exact List.mem_append_left _ (List.mem_flatMap.mpr ⟨set, hs, hx⟩)
    tauto

theorem ofBody_subset {d : ClassDef} {b : Body} (h : d.HasBody b) : ofBody b ⊆ ofClass d := by
  obtain ⟨m, hm, hb⟩ := h
  intro x hx
  simp only [ofClass, List.mem_append, List.mem_flatMap]
  refine .inr (.inr ⟨m, hm, ?_⟩)
  simp only [ofMethodOf, List.mem_append, List.mem_flatMap]
  exact .inr (.inr (.inr ⟨b, Option.mem_toList.mpr hb, hx⟩))

theorem owns_mem_ofClass {d : ClassDef} {e : Entity} (h : d.Owns e) : e ∈ ofClass d := by
  cases h with
  | interfaces h =>
    have he : d.interfaces.isEmpty = false := by simpa using h
    simp [ofClass, ofClassAlone, ofTypeList, he]
  | staticValues h =>
    have he : d.staticValues.isEmpty = false := by simpa using h
    simp [ofClass, ofClassAlone, ofStaticValues, he]
  | annotationItem ha =>
    obtain ⟨set, hs, ha⟩ := ha
    refine ofSet_subset hs (ofAnnotation_subset ha ?_)
    simp [List.mem_append, ofAnnotation]
  | annotationSet hs h =>
    refine ofSet_subset hs ?_
    simp [ofSet, h]
  | @setList m hm h =>
    simp only [ofClass, List.mem_append, List.mem_flatMap]
    refine .inr (.inr ⟨m, hm, ?_⟩)
    simp [ofMethodOf, ofParameters, h]

theorem names_mem_ofClass {d : ClassDef} {e : Entity} (h : d.Names e) : e ∈ ofClass d := by
  cases h with
  | self => simp [ofClass, ofClassAlone, ofType]
  | superclass h => simp [ofClass, ofClassAlone, ofType, h]
  | interface h =>
    simp only [ofClass, ofClassAlone, ofTypeList, List.mem_append, List.mem_flatMap]
    exact .inl (.inr (.inr (.inl (.inl ⟨_, h, List.mem_cons_self ..⟩))))
  | sourceFile h => simp [ofClass, ofClassAlone, h]
  | @field f h =>
    simp only [ofClass, List.mem_append, List.mem_flatMap]
    exact .inr (.inl ⟨f, h, List.mem_cons_self ..⟩)
  | @method m h =>
    simp only [ofClass, List.mem_append, List.mem_flatMap]
    exact .inr (.inr ⟨m, h, List.mem_cons_self ..⟩)
  | @initial v e hv h =>
    have hm := hv.mem_staticValues
    have he : d.staticValues.isEmpty = false := by
      rw [List.isEmpty_eq_false_iff]
      exact List.ne_nil_of_mem hm
    simp only [ofClass, ofClassAlone, ofStaticValues, he, List.mem_append, List.mem_flatMap]
    exact .inl (.inr (.inr (.inr (.inr (.inr (List.mem_append_left _
      (List.mem_flatMap.mpr ⟨v, hm, names_mem_ofValue h⟩)))))))
  | annotated ha h =>
    obtain ⟨set, hs, ha⟩ := ha
    exact ofSet_subset hs (ofAnnotation_subset ha (annotation_names_mem h))
  | reference hb hr h =>
    obtain ⟨i, hi, hr⟩ := hr
    refine ofBody_subset hb (List.mem_append_left _ (List.mem_flatMap.mpr ⟨i, hi, ?_⟩))
    exact List.mem_flatMap.mpr ⟨_, hr, entity_mem_ofReference h⟩
  | handler hb hs =>
    obtain ⟨t, ht, handler, hh, hs⟩ := hs
    refine ofBody_subset hb (List.mem_append_right _ (List.mem_flatMap.mpr ⟨t, ht, ?_⟩))
    refine List.mem_flatMap.mpr ⟨handler, hh, List.mem_flatMap.mpr ⟨_, ?_, List.mem_cons_self ..⟩⟩
    exact Option.mem_toList.mpr hs
  | owned h => exact owns_mem_ofClass h

end Entity

end Dalvik
