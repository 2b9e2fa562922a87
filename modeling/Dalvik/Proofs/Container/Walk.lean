/-
# The walk that skips adds as much as the one that does not

Discovery passes over a type, a prototype, a field or a method that the catalog has already,
together with all that it names.  That is sound only if what a catalog has is always followed by
what it names, and while a thing is being added it is not: a method is there before its prototype.

The way out is that nothing names a thing of its own rank or above.  `ClosedTo` asks for closure
below a rank, which adding a thing of that rank does not break, and `Adds` says of a part of the
walk that on such a catalog it is the plain insertion of a list.  The lists are computed below, for
every part of a class; `addClass_adds` is the sum of it.
-/
import Dalvik.Container.Discovery
import Dalvik.Proofs.Container.Tables

namespace Dalvik

namespace Entity

/-! ## 1. What is named, as lists -/

/-- A type and its descriptor. -/
def ofType (descriptor : String) : List Entity :=
  [.type descriptor, .string descriptor]

/-- Types, and their list unless there are none. -/
def ofTypeList (descriptors : List String) : List Entity :=
  descriptors.flatMap ofType ++ if descriptors.isEmpty then [] else [.typeList descriptors]

/-- A prototype, its short form and its types. -/
def ofProto (p : Proto) : List Entity :=
  .proto p :: .string p.shorty :: (ofType p.returnType ++ ofTypeList p.parameters)

/-- A field, its class, its name and its type. -/
def ofField (f : FieldRef) : List Entity :=
  .field f :: (ofType f.owner ++ .string f.name :: ofType f.type)

/-- A method, its class, its name and its prototype. -/
def ofMethod (m : MethodRef) : List Entity :=
  .method m :: (ofType m.owner ++ .string m.name :: ofProto m.proto)

/-- What a reference names. -/
def ofReference : Reference → List Entity
  | .string value => [.string value]
  | .type descriptor => ofType descriptor
  | .field f => ofField f
  | .method m => ofMethod m
  | .proto p => ofProto p
  | .callSite _ | .methodHandle _ | .raw _ _ => []

/-- What a value names itself, without the values inside it. -/
def ofValueAlone : EncodedValue → List Entity
  | .string value => [.string value]
  | .type descriptor => ofType descriptor
  | .field f | .enum f => ofField f
  | .method m => ofMethod m
  | .methodType p => ofProto p
  | .annotationValue a => ofType a.type ++ a.elements.flatMap fun (name, _) => [.string name]
  | _ => []

/-- What a value and all values inside it name. -/
def ofValue (value : EncodedValue) : List Entity :=
  value.subvalues.flatMap ofValueAlone

/-- What an element of an annotation names. -/
def ofElement (element : String × EncodedValue) : List Entity :=
  .string element.1 :: ofValue element.2

/-- What an annotation names, and the annotation. -/
def ofAnnotation (a : Annotation) : List Entity :=
  ofType a.type ++ (a.content.elements.flatMap ofElement ++ [.annotationItem a])

/-- What annotations name, and their set unless there are none. -/
def ofSet (annotations : List Annotation) : List Entity :=
  annotations.flatMap ofAnnotation ++
    if annotations.isEmpty then [] else [.annotationSet (AnnotationSet.sorted annotations)]

/-- What initial values name, and their array unless there are none. -/
def ofStaticValues (values : List EncodedValue) : List Entity :=
  if values.isEmpty then [] else values.flatMap ofValue ++ [.encodedArray values]

/-- What an instruction names. -/
def ofInstruction (i : Instruction) : List Entity :=
  i.references.flatMap ofReference

/-- The types that the handlers of a range catch. -/
def ofTry (t : TryRange) : List Entity :=
  t.handlers.flatMap fun h => h.type?.toList.flatMap ofType

/-- What the code of a method names. -/
def ofBody (b : Body) : List Entity :=
  b.instructions.flatMap ofInstruction ++ b.tries.flatMap ofTry

/-- What the annotations of parameters name, and their list unless no parameter has any. -/
def ofParameters (m : Method) : List Entity :=
  if m.hasParameterAnnotations then
    m.parameterAnnotations.flatMap ofSet ++
      [.setList (m.parameterAnnotations.map AnnotationSet.sorted)]
  else
    []

/-- What a field of a class names. -/
def ofFieldOf (d : ClassDef) (f : Field) : List Entity :=
  ofField (d.fieldRef f) ++ ofSet f.annotations

/-- What a method of a class names. -/
def ofMethodOf (d : ClassDef) (m : Method) : List Entity :=
  ofMethod (d.methodRef m) ++
    (ofSet m.annotations ++ (ofParameters m ++ m.body?.toList.flatMap ofBody))

/-- What a class names besides its members. -/
def ofClassAlone (d : ClassDef) : List Entity :=
  ofType d.descriptor ++ (d.superclass?.toList.flatMap ofType ++ (ofTypeList d.interfaces ++
    (d.sourceFile?.toList.flatMap (fun file => [.string file]) ++
      (ofSet d.annotations ++ ofStaticValues d.staticValues))))

/-- What a class names. -/
def ofClass (d : ClassDef) : List Entity :=
  ofClassAlone d ++ (d.fields.flatMap (ofFieldOf d) ++ d.methods.flatMap (ofMethodOf d))

/-! ## 2. Ranks -/

/-- What a thing names, and what that names in turn. -/
def needs : Entity → List Entity
  | .type descriptor => [.string descriptor]
  | .proto p => .string p.shorty :: (ofType p.returnType ++ ofTypeList p.parameters)
  | .field f => ofType f.owner ++ .string f.name :: ofType f.type
  | .method m => ofType m.owner ++ .string m.name :: ofProto m.proto
  | _ => []

/-- How far a thing is above those that name nothing: more than what it names. -/
def rank : Entity → Nat
  | .type _ => 1
  | .proto _ | .field _ => 2
  | .method _ => 3
  | _ => 0

/-- A list that has what its things name. -/
def Complete (entities : List Entity) : Prop :=
  ∀ e ∈ entities, ∀ x ∈ e.needs, x ∈ entities

theorem Complete.append {first rest : List Entity} (hf : Complete first) (hr : Complete rest) :
    Complete (first ++ rest) := by
  intro e he x hx
  rcases List.mem_append.mp he with he | he
  · exact List.mem_append_left _ (hf e he x hx)
  · exact List.mem_append_right _ (hr e he x hx)

theorem Complete.cons {e : Entity} (h : Complete e.needs) : Complete (e :: e.needs) := by
  intro y hy x hx
  rcases List.mem_cons.mp hy with rfl | hy
  · exact List.mem_cons_of_mem _ hx
  · exact List.mem_cons_of_mem _ (h y hy x hx)

end Entity

namespace Catalog

open Entity

/-! ## 3. Closure below a rank -/

/-- What the catalog has of up to a rank, it has with all that it names; and its maps tell what it
has. -/
structure ClosedTo (n : Nat) (c : Catalog) : Prop where
  inStep : c.InStep
  needs : ∀ e, e.rank ≤ n → c.Stored e → ∀ x ∈ e.needs, c.Holds x

theorem ClosedTo.mono {m n : Nat} {c : Catalog} (hc : c.ClosedTo n) (h : m ≤ n) : c.ClosedTo m where
  inStep := hc.inStep
  needs e he := hc.needs e (Nat.le_trans he h)

theorem ClosedTo.insertAll {n : Nat} {c c' : Catalog} {entities : List Entity}
    (hc : c.ClosedTo n) (hl : Complete entities) (h : c.insertAll entities = .ok c') :
    c'.ClosedTo n := by
  obtain ⟨hs, hh, -⟩ := insertAll_eq_ok hc.inStep h
  refine ⟨hc.inStep.insertAll h, fun e he hst x hx => ?_⟩
  rcases hs e hst with hst | hm
  · exact (hh x).mpr (.inl (hc.needs e he hst x hx))
  · exact (hh x).mpr (.inr ⟨x, hl e hm x hx, .refl x⟩)

/-- A thing that has just come does not matter below its rank. -/
theorem ClosedTo.insert {n : Nat} {c c' : Catalog} {e : Entity} (hc : c.ClosedTo n)
    (hr : n < e.rank) (h : c.insert e = .ok c') : c'.ClosedTo n := by
  refine ⟨hc.inStep.insert h, fun y hy hst x hx => ?_⟩
  rcases stored_of_insert hc.inStep h hst with hst | rfl
  · exact (holds_of_insert hc.inStep h).mpr (.inl (hc.needs y hy hst x hx))
  · omega

theorem closedTo_new (n : Nat) (classes : List ClassDef) : ClosedTo n { classes } where
  inStep := inStep_new classes
  needs e _ he := (not_stored_new classes e he).elim

end Catalog

namespace Collector

open Entity

/-! ## 4. Steps in place -/

/-- A thing is added at once, or not at all. -/
theorem insert_eq (e : Entity) (c : Catalog) :
    insert e c =
      match c.insert e with
      | .ok c' => .ok () c'
      | .error cause => .error cause c := by
  have hrun : insert e c = ((c.insert e : Collector Catalog) >>= set) c := rfl
  rw [hrun]
  cases c.insert e <;> rfl

/-- Adds things in order, up to the first that cannot be added. -/
def insertAll (entities : List Entity) : Collector Unit :=
  entities.forM insert

theorem insertAll_cons (e : Entity) (rest : List Entity) :
    insertAll (e :: rest) = insert e >>= fun _ => insertAll rest :=
  rfl

theorem insertAll_append (first rest : List Entity) :
    insertAll (first ++ rest) = insertAll first >>= fun _ => insertAll rest :=
  List.forM_append

/-- A step after another goes on from what that one has left. -/
theorem bind_run {f g : Collector Unit} (c : Catalog) :
    (f >>= fun _ => g) c =
      match f c with
      | .ok _ c' => g c'
      | .error cause c' => .error cause c' := by
  have hrun : (f >>= fun _ => g) c = EStateM.bind f (fun _ => g) c := rfl
  rw [hrun, EStateM.bind]
  cases f c <;> rfl

theorem outcome_insertAll (entities : List Entity) (c : Catalog) :
    (insertAll entities).outcome c = c.insertAll entities := by
  induction entities generalizing c with
  | nil => rfl
  | cons e rest ih =>
    rw [Catalog.insertAll_cons, outcome, insertAll_cons, bind_run, insert_eq]
    cases c.insert e with
    | error cause => rfl
    | ok c' => exact ih c'

theorem insertAll_eq_ok {entities : List Entity} {c c' : Catalog} {u : Unit} :
    insertAll entities c = .ok u c' ↔ c.insertAll entities = .ok c' := by
  rw [← outcome_insertAll, outcome]
  cases insertAll entities c <;> simp

/-- On a catalog closed up to `n`, a step inserts a complete list, one thing after the other. -/
structure Collects (n : Nat) (step : Collector Unit) (entities : List Entity) : Prop where
  complete : Complete entities
  eq : ∀ c : Catalog, c.ClosedTo n → step c = insertAll entities c

namespace Collects

variable {n : Nat} {f g : Collector Unit} {first rest : List Entity}

theorem none : Collects n (pure ()) [] where
  complete := fun _ h => (List.not_mem_nil h).elim
  eq _ _ := rfl

theorem one {e : Entity} (he : e.needs = []) : Collects n (insert e) [e] where
  complete y hy x hx := by
    rw [List.mem_singleton.mp hy, he] at hx
    exact (List.not_mem_nil hx).elim
  eq c _ := by
    rw [insertAll_cons, bind_run]
    cases insert e c <;> rfl

theorem bind (hf : Collects n f first) (hg : Collects n g rest) :
    Collects n (f >>= fun _ => g) (first ++ rest) where
  complete := hf.complete.append hg.complete
  eq c hc := by
    rw [insertAll_append, bind_run, bind_run, hf.eq c hc]
    cases hrun : insertAll first c with
    | error => rfl
    | ok u c' => exact hg.eq c' (hc.insertAll hf.complete (insertAll_eq_ok.mp hrun))

theorem cons {e : Entity} (he : e.needs = []) (hg : Collects n g rest) :
    Collects n (insert e >>= fun _ => g) (e :: rest) :=
  (one he).bind hg

theorem forM {α : Type} {add : α → Collector Unit} {of : α → List Entity} {items : List α}
    (h : ∀ a ∈ items, Collects n (add a) (of a)) :
    Collects n (items.forM add) (items.flatMap of) := by
  induction items with
  | nil => exact none
  | cons a rest ih =>
    have hrest := ih fun b hb => h b (List.mem_cons_of_mem _ hb)
    exact (h a (List.mem_cons_self ..)).bind hrest

theorem orNone {p : Bool} (hf : Collects n f first) :
    Collects n (if p then pure () else f) (if p then [] else first) := by
  cases p
  · exact hf
  · exact none

/-- **Skipping.**  A thing that is there is passed over; if it is not, it comes first, and then what
it names, which is all below it. -/
theorem skip {e : Entity} {m : Nat} {has : Catalog → Bool} (hr : e.rank = m + 1) (hn : m < n)
    (hh : ∀ c : Catalog, c.InStep → (has c = true ↔ c.Stored e)) (hf : Collects m f e.needs) :
    Collects n (do if has (← get) then pure () else insert e; f) (e :: e.needs) where
  complete := hf.complete.cons
  eq c hc := by
    have hrun : (do if has (← get) then pure () else insert e; f : Collector Unit) c =
        (if has c then pure () else do insert e; f : Collector Unit) c := rfl
    rw [hrun]
    split
    case isTrue h =>
      have hst := (hh c hc.inStep).mp h
      refine (insertAll_eq_ok.mpr (Catalog.insertAll_of_holds hc.inStep fun x hx => ?_)).symm
      rcases List.mem_cons.mp hx with rfl | hx
      · exact hst.holds
      · exact hc.needs e (by omega) hst x hx
    case isFalse =>
      rw [insertAll_cons, bind_run, bind_run, insert_eq]
      cases hi : c.insert e with
      | error => rfl
      | ok c' => exact hf.eq c' ((hc.mono (by omega)).insert (by omega) hi)

end Collects

/-! ## 5. References -/

section Parts

variable {n : Nat}

theorem addType_collects (hn : 0 < n) (descriptor : String) :
    Collects n (addType descriptor) (ofType descriptor) :=
  .skip rfl hn (fun _ hc => hc.types.index?_isSome.trans Catalog.stored_type.symm) (.one rfl)

theorem addTypeList_collects (hn : 0 < n) (descriptors : List String) :
    Collects n (addTypeList descriptors) (ofTypeList descriptors) :=
  .bind (.forM fun d _ => addType_collects hn d) (.orNone (.one rfl))

theorem addProto_collects (hn : 1 < n) (p : Proto) : Collects n (addProto p) (ofProto p) :=
  .skip rfl hn (fun _ hc => hc.protos.index?_isSome.trans Catalog.stored_proto.symm) <|
    .cons rfl <| .bind (addType_collects Nat.one_pos _) (addTypeList_collects Nat.one_pos _)

theorem addField_collects (hn : 1 < n) (f : FieldRef) : Collects n (addField f) (ofField f) :=
  .skip rfl hn (fun _ hc => hc.fields.index?_isSome.trans Catalog.stored_field.symm) <|
    .bind (addType_collects Nat.one_pos _) <| .cons rfl (addType_collects Nat.one_pos _)

theorem addMethod_collects (hn : 2 < n) (m : MethodRef) : Collects n (addMethod m) (ofMethod m) :=
  .skip rfl hn (fun _ hc => hc.methods.index?_isSome.trans Catalog.stored_method.symm) <|
    .bind (addType_collects Nat.two_pos _) <| .cons rfl (addProto_collects Nat.one_lt_two _)

theorem addReference_collects (hn : 2 < n) (r : Reference) :
    Collects n (addReference r) (ofReference r) := by
  cases r with
  | string value => exact .one (e := .string value) rfl
  | type d => exact addType_collects (by omega) d
  | field f => exact addField_collects (by omega) f
  | method m => exact addMethod_collects hn m
  | proto p => exact addProto_collects (by omega) p
  | callSite => exact .none
  | methodHandle => exact .none
  | raw => exact .none

/-! ## 6. Values and annotations -/

theorem addValueAlone_collects (hn : 2 < n) (value : EncodedValue) :
    Collects n (addValueAlone value) (ofValueAlone value) := by
  cases value with
  | string value => exact .one (e := .string value) rfl
  | type d => exact addType_collects (by omega) d
  | field f => exact addField_collects (by omega) f
  | enum f => exact addField_collects (by omega) f
  | method m => exact addMethod_collects hn m
  | methodType p => exact addProto_collects (by omega) p
  | annotationValue a => exact .bind (addType_collects (by omega) _) (.forM fun _ _ => .one rfl)
  | _ => exact .none

theorem addValue_collects (hn : 2 < n) (value : EncodedValue) :
    Collects n (addValue value) (ofValue value) :=
  .forM fun v _ => addValueAlone_collects hn v

theorem addAnnotation_collects (hn : 2 < n) (a : Annotation) :
    Collects n (a |> addAnnotation) (a |> ofAnnotation) :=
  .bind (addType_collects (by omega) _) <|
    .bind (.forM fun e _ => .cons rfl (addValue_collects hn e.2)) (.one rfl)

theorem addAnnotations_collects (hn : 2 < n) (annotations : List Annotation) :
    Collects n (addAnnotations annotations) (ofSet annotations) :=
  .bind (.forM fun a _ => addAnnotation_collects hn a) (.orNone (.one rfl))

theorem addStaticValues_collects (hn : 2 < n) (values : List EncodedValue) :
    Collects n (addStaticValues values) (ofStaticValues values) :=
  .orNone (.bind (.forM fun v _ => addValue_collects hn v) (.one rfl))

end Parts

end Collector

namespace Catalog

open Entity

/-! ## 7. Parts of the walk over classes -/

/-- On a catalog closed up to `n`, a part of the walk inserts a complete list. -/
structure Adds (n : Nat) (add : Catalog → Except Error Catalog) (entities : List Entity) :
    Prop where
  complete : Complete entities
  eq : ∀ c : Catalog, c.ClosedTo n → add c = c.insertAll entities

namespace Adds

variable {n : Nat} {f g : Catalog → Except Error Catalog} {first rest : List Entity}

/-- What a step in place makes of a catalog. -/
theorem of_collects {step : Collector Unit} (h : Collector.Collects n step first) :
    Adds n step.outcome first where
  complete := h.complete
  eq c hc := by
    rw [← Collector.outcome_insertAll, Collector.outcome, Collector.outcome, h.eq c hc]

theorem none : Adds n .ok [] where
  complete := fun _ h => (List.not_mem_nil h).elim
  eq _ _ := rfl

theorem one {e : Entity} (he : e.needs = []) : Adds n (·.insert e) [e] where
  complete y hy x hx := by
    rw [List.mem_singleton.mp hy, he] at hx
    exact (List.not_mem_nil hx).elim
  eq c _ := by
    rw [insertAll_cons]
    exact (bind_pure (c.insert e)).symm

theorem bind (hf : Adds n f first) (hg : Adds n g rest) :
    Adds n (fun c => f c >>= g) (first ++ rest) where
  complete := hf.complete.append hg.complete
  eq c hc := by
    rw [insertAll_append, hf.eq c hc]
    refine bind_congr_ok fun c' h => hg.eq c' ?_
    exact hc.insertAll hf.complete h

theorem foldlM {α : Type} {add : Catalog → α → Except Error Catalog} {of : α → List Entity}
    {items : List α} (h : ∀ a ∈ items, Adds n (add · a) (of a)) :
    Adds n (fun c => items.foldlM add c) (items.flatMap of) := by
  induction items with
  | nil => exact none
  | cons a rest ih =>
    have hrest := ih fun b hb => h b (List.mem_cons_of_mem _ hb)
    simp only [List.foldlM_cons, List.flatMap_cons]
    exact (h a (List.mem_cons_self ..)).bind hrest

theorem orElse {p : Bool} (hf : Adds n f first) :
    Adds n (fun c => if p then f c else .ok c) (if p then first else []) := by
  cases p
  · exact none
  · exact hf

end Adds

section Parts

variable {n : Nat}

theorem addType_adds (hn : 0 < n) (descriptor : String) :
    Adds n (·.addType descriptor) (ofType descriptor) :=
  .of_collects (Collector.addType_collects hn descriptor)

theorem addTypeList_adds (hn : 0 < n) (descriptors : List String) :
    Adds n (·.addTypeList descriptors) (ofTypeList descriptors) :=
  .of_collects (Collector.addTypeList_collects hn descriptors)

theorem addField_adds (hn : 1 < n) (f : FieldRef) : Adds n (·.addField f) (ofField f) :=
  .of_collects (Collector.addField_collects hn f)

theorem addMethod_adds (hn : 2 < n) (m : MethodRef) : Adds n (·.addMethod m) (ofMethod m) :=
  .of_collects (Collector.addMethod_collects hn m)

theorem addReference_adds (hn : 2 < n) (r : Reference) :
    Adds n (·.addReference r) (ofReference r) :=
  .of_collects (Collector.addReference_collects hn r)

theorem addSet_adds (hn : 2 < n) (annotations : List Annotation) :
    Adds n (·.addSet annotations) (ofSet annotations) where
  complete := (Collector.addAnnotations_collects hn annotations).complete
  eq c hc := by
    have houtcome : (Collector.addSet annotations).outcome c =
        (Collector.addAnnotations annotations).outcome c := by
      have hrun : Collector.addSet annotations c =
          EStateM.bind (Collector.addAnnotations annotations)
            (fun _ => pure (AnnotationSet.sorted annotations)) c := rfl
      rw [Collector.outcome, Collector.outcome, hrun, EStateM.bind]
      cases Collector.addAnnotations annotations c <;> rfl
    exact houtcome.trans
      ((Adds.of_collects (Collector.addAnnotations_collects hn annotations)).eq c hc)

theorem addStaticValues_adds (hn : 2 < n) (values : List EncodedValue) :
    Adds n (·.addStaticValues values) (ofStaticValues values) :=
  .of_collects (Collector.addStaticValues_collects hn values)

/-! ## 8. Members -/

/-- Members that all refer to something else are added as any list is. -/
theorem addMembers_adds {α ρ : Type} [BEq ρ] [LawfulBEq ρ] {reference : α → ρ} {twice : ρ → Error}
    {add : Catalog → α → Except Error Catalog} {of : α → List Entity}
    (h : ∀ a, Adds n (add · a) (of a)) {members : List α} {seen : List ρ}
    (hd : (members.map reference).Nodup) (hs : ∀ a ∈ members, reference a ∉ seen) :
    Adds n (fun c => addMembers reference twice add c seen members) (members.flatMap of) := by
  induction members generalizing seen with
  | nil => exact .none
  | cons a rest ih =>
    rw [List.map_cons, List.nodup_cons] at hd
    have hrest : ∀ b ∈ rest, reference b ∉ reference a :: seen := by
      intro b hb hm
      rcases List.mem_cons.mp hm with e | hm
      · exact hd.1 (e ▸ List.mem_map_of_mem hb)
      · exact hs b (List.mem_cons_of_mem _ hb) hm
    have ha : seen.contains (reference a) = false := by
      simpa using hs a (List.mem_cons_self ..)
    simp only [addMembers, ha]
    exact .bind (h a) (ih hd.2 hrest)

/-- Members of which two refer to the same are not added. -/
theorem nodup_of_addMembers {α ρ : Type} [BEq ρ] [LawfulBEq ρ] {reference : α → ρ}
    {twice : ρ → Error} {add : Catalog → α → Except Error Catalog} {members : List α}
    {seen : List ρ} {c c' : Catalog}
    (h : addMembers reference twice add c seen members = .ok c') :
    (members.map reference).Nodup ∧ ∀ a ∈ members, reference a ∉ seen := by
  induction members generalizing seen c with
  | nil => simp
  | cons a rest ih =>
    rw [addMembers] at h
    by_cases ha : reference a ∈ seen
    · simp [ha, throw, throwThe, MonadExceptOf.throw, bind, Except.bind] at h
    · simp only [List.contains_eq_mem, ha, decide_false] at h
      obtain ⟨-, -, h⟩ := bind_eq_ok.mp h
      obtain ⟨d, -, h⟩ := bind_eq_ok.mp h
      obtain ⟨hd, hs⟩ := ih h
      refine ⟨List.nodup_cons.mpr ⟨fun hm => ?_, hd⟩, ?_⟩
      · obtain ⟨b, hb, e⟩ := List.mem_map.mp hm
        exact hs b hb (e ▸ List.mem_cons_self ..)
      · rintro b (_ | ⟨_, hb⟩)
        · exact ha
        · exact fun hm => hs b hb (List.mem_cons_of_mem _ hm)

theorem addFieldOf_adds (hn : 2 < n) (d : ClassDef) (f : Field) :
    Adds n (addFieldOf d · f) (ofFieldOf d f) :=
  .bind (addField_adds (by omega) _) (addSet_adds hn _)

theorem addParameters_adds (hn : 2 < n) (m : Method) :
    Adds n (·.addParameters m) (ofParameters m) :=
  .orElse (.bind (.foldlM fun s _ => addSet_adds hn s) (.one rfl))

theorem addBody_adds (hn : 2 < n) (b : Body) : Adds n (·.addBody b) (ofBody b) :=
  .bind (.foldlM fun _ _ => .foldlM fun r _ => addReference_adds hn r) <|
    .foldlM fun _ _ => .foldlM fun _ _ => .foldlM fun d _ => addType_adds (by omega) d

theorem addMethodOf_adds (hn : 2 < n) (d : ClassDef) (m : Method) :
    Adds n (addMethodOf d · m) (ofMethodOf d m) :=
  .bind (addMethod_adds hn _) <| .bind (addSet_adds hn _) <|
    .bind (addParameters_adds hn m) (.foldlM fun b _ => addBody_adds hn b)

/-! ## 9. Classes -/

theorem addClassAlone_adds (hn : 2 < n) (d : ClassDef) :
    Adds n (·.addClassAlone d) (ofClassAlone d) :=
  .bind (addType_adds (by omega) _) <|
    .bind (.foldlM fun s _ => addType_adds (by omega) s) <|
      .bind (addTypeList_adds (by omega) _) <| .bind (.foldlM fun _ _ => .one rfl) <|
        .bind (addSet_adds hn _) (addStaticValues_adds hn _)

/-- **A class** without repeated members is added as its list is. -/
theorem addClass_adds (hn : 2 < n) (d : ClassDef) (hf : (d.fields.map d.fieldRef).Nodup)
    (hm : (d.methods.map d.methodRef).Nodup) : Adds n (·.addClass d) (ofClass d) :=
  .bind (addClassAlone_adds hn d) <|
    .bind (addMembers_adds (addFieldOf_adds hn d) hf fun _ _ => List.not_mem_nil) <|
      addMembers_adds (addMethodOf_adds hn d) hm fun _ _ => List.not_mem_nil

/-- A class that has been added has no repeated members. -/
theorem nodup_of_addClass {c c' : Catalog} {d : ClassDef} (h : c.addClass d = .ok c') :
    (d.fields.map d.fieldRef).Nodup ∧ (d.methods.map d.methodRef).Nodup := by
  obtain ⟨c₁, -, h⟩ := bind_eq_ok.mp h
  obtain ⟨c₂, hf, hm⟩ := bind_eq_ok.mp h
  exact ⟨(nodup_of_addMembers hf).1, (nodup_of_addMembers hm).1⟩

end Parts

end Catalog

end Dalvik
