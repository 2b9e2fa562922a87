/-
# Code items look up what the code names

Besides the references of the instructions, a code item needs the indices of the types that the
handlers catch.  Register counts, offsets and sizes fail for other reasons only.
-/
import Dalvik.Container.CodeItem
import Dalvik.Proofs.Body.Ranges
import Dalvik.Proofs.Container.Reached
import Dalvik.Proofs.Instruction.Resolving

namespace Dalvik

/-! ## 1. Register counts -/

theorem resolves_sum16 {excess : String} {a b : UInt16} : Resolves (Bytes.sum16 excess a b) := by
  unfold Bytes.sum16
  split <;> simp

theorem Proto.resolves_parameterRegisters (p : Proto) : Resolves p.parameterRegisters :=
  resolves_foldlM fun _ _ _ => resolves_sum16

theorem Method.resolves_insCount (m : Method) : Resolves m.insCount := by
  rw [insCount, resolves_bind]
  exact ⟨m.proto.resolves_parameterRegisters, fun _ _ => resolves_sum16⟩

theorem Instruction.resolves_outgoing (i : Instruction) : Resolves i.outgoing := by
  unfold outgoing
  split
  case h_2 => exact resolves_ok
  case h_1 callee _ =>
    rw [resolves_bind]
    refine ⟨callee.proto.resolves_parameterRegisters, fun n _ => ?_⟩
    split
    · exact resolves_pure
    · exact resolves_sum16

theorem Method.resolves_registerCounts (options : Container.Options) (m : Method) (b : Body) :
    Resolves (m.registerCounts options b) := by
  rw [registerCounts, resolves_bind]
  refine ⟨m.resolves_insCount, fun n _ => ?_⟩
  rw [resolves_bind]
  exact ⟨resolves_foldlM fun _ i _ => by simp [i.resolves_outgoing], fun _ _ => resolves_pure⟩

/-! ## 2. Try ranges -/

namespace Body

variable {b : Body}

theorem resolves_get (h : Handle) : Resolves (b.get h) := by
  unfold get
  split <;> simp

theorem resolves_offsetOf (h : Handle) : Resolves (b.offsetOf h) := by
  rw [offsetOf, resolves_bind]
  refine ⟨resolves_get h, fun _ _ => ?_⟩
  split <;> simp

theorem resolves_tryBounds (t : TryRange) : Resolves (b.tryBounds t) := by
  simp [tryBounds, resolves_offsetOf, resolves_get]

theorem resolves_resolveHandlers (handlers : List CatchHandler) :
    Resolves (b.resolveHandlers handlers) := by
  induction handlers with
  | nil => exact resolves_ok
  | cons handler rest ih =>
    rw [resolveHandlers, resolves_bind]
    refine ⟨resolves_offsetOf _, fun _ _ => ?_⟩
    rw [resolves_bind]
    refine ⟨resolves_narrow32, fun _ _ => ?_⟩
    split
    · simp [ih]
    · simp
    · simp

theorem resolves_resolveTry (t : TryRange) : Resolves (b.resolveTry t) := by
  rw [resolveTry, resolves_bind]
  refine ⟨resolves_tryBounds t, fun bounds _ => ?_⟩
  dsimp only
  split
  · simp
  · split
    · simp
    · simp only [resolves_bind, resolves_narrow32, true_and]
      intro _ _
      split
      · simp
      · simp [resolves_resolveHandlers]

theorem resolves_resolveTries : Resolves b.resolveTries := by
  have h : Resolves (b.tries.mapM b.resolveTry) := resolves_mapM fun t _ => resolves_resolveTry t
  rw [resolveTries, resolves_bind]
  exact ⟨h, fun _ _ => resolves_pure⟩

/-! ## 3. Types of handlers -/

theorem caught_of_resolveHandlers {handlers : List CatchHandler} {list : HandlerList}
    (h : b.resolveHandlers handlers = .ok list) {x : String × UInt32} (hx : x ∈ list.typed) :
    ∃ handler ∈ handlers, handler.type? = some x.1 := by
  have hentry : (some x.1, x.2) ∈ list.entries :=
    List.mem_append_left _ (List.mem_map_of_mem hx)
  obtain ⟨handler, hm, htype, -⟩ :=
    exists_of_mem_left (entries_of_resolveHandlers h).flip _ hentry
  exact ⟨handler, hm, htype.symm⟩

theorem mem_of_mem_firstLists {seen : List (List UInt8)} {lists : List HandlerList}
    {list : HandlerList} (h : list ∈ firstLists seen lists) : list ∈ lists := by
  induction lists generalizing seen with
  | nil => exact (List.not_mem_nil h).elim
  | cons first rest ih =>
    rw [firstLists] at h
    split at h
    · exact List.mem_cons_of_mem _ (ih h)
    · rcases List.mem_cons.mp h with rfl | h
      · exact List.mem_cons_self ..
      · exact List.mem_cons_of_mem _ (ih h)

/-- The types in the handler lists of a body are those that its handlers catch. -/
theorem catches_of_resolveTries {tries : List ResolvedTry} (h : b.resolveTries = .ok tries)
    {r : ResolvedTry} (hr : r ∈ tries) {x : String × UInt32} (hx : x ∈ r.handlers.typed) :
    b.Catches x.1 := by
  obtain ⟨t, ht, hrun⟩ := (mem_of_resolveTries h).mp hr
  obtain ⟨_, _, -, -, -, -, -, -, -, hhandlers⟩ := resolveTry_eq_ok.mp hrun
  exact ⟨t, ht, caught_of_resolveHandlers hhandlers hx⟩

end Body

/-! ## 4. The item -/

section Item

variable {ix : Indexer}

theorem HandlerList.resolves_encode {list : HandlerList}
    (h : ∀ x ∈ list.typed, Resolves (ix (.type x.1))) : Resolves (list.encode ix) := by
  have hs : Resolves list.signedSize := by
    unfold signedSize
    dsimp only
    split <;> simp
  have ht : Resolves (list.typed.mapM (encodeTyped ix)) :=
    resolves_mapM fun x hx => by simp [encodeTyped, h x hx]
  simp [encode, hs, ht]

theorem HandlerList.resolves_encodeAll {lists : List HandlerList} (start : Nat)
    (h : ∀ list ∈ lists, ∀ x ∈ list.typed, Resolves (ix (.type x.1))) :
    Resolves (encodeAll ix start lists) := by
  induction lists generalizing start with
  | nil => exact resolves_ok
  | cons list rest ih =>
    have hrest := fun n => ih n fun l hl => h l (List.mem_cons_of_mem _ hl)
    rw [encodeAll]
    split
    · simp
    · simp [HandlerList.resolves_encode (h list (List.mem_cons_self ..)), hrest]

theorem ResolvedTry.resolves_encodeWith (places : List (List UInt8 × UInt16)) (t : ResolvedTry) :
    Resolves (t.encodeWith places) := by
  unfold encodeWith
  split <;> simp

theorem ResolvedTry.resolves_encodeAll {tries : List ResolvedTry}
    (h : ∀ r ∈ tries, ∀ x ∈ r.handlers.typed, Resolves (ix (.type x.1))) :
    Resolves (encodeAll ix tries) := by
  have hl : ∀ list ∈ Body.distinctLists tries, ∀ x ∈ list.typed, Resolves (ix (.type x.1)) := by
    intro list hm
    obtain ⟨r, hr, rfl⟩ := List.mem_map.mp (Body.mem_of_mem_firstLists hm)
    exact h r hr
  have hr : ∀ places, Resolves (tries.mapM (encodeWith places)) := fun places =>
    resolves_mapM fun t _ => resolves_encodeWith places t
  simp [encodeAll, HandlerList.resolves_encodeAll _ hl, hr]

theorem resolves_codeParts {counts : RegisterCounts} {units : List UInt16}
    {tries : List ResolvedTry}
    (h : ∀ r ∈ tries, ∀ x ∈ r.handlers.typed, Resolves (ix (.type x.1))) :
    ∀ p ∈ codeParts ix counts units tries, Resolves p := by
  simp only [codeParts, List.cons_append, List.nil_append, List.forall_mem_cons, resolves_ok,
    resolves_map, resolves_narrow16, resolves_narrow32, true_and]
  unfold triesParts
  split
  · simp
  · simp [ResolvedTry.resolves_encodeAll h]

/-- **A code item** fails for a reference without an entry only by one that the code names. -/
theorem Method.resolves_writeCode {options : Container.Options} {m : Method} {b : Body}
    (hr : ∀ r, b.Refers r → Resolves (ix r)) (hc : ∀ s, b.Catches s → Resolves (ix (.type s))) :
    StepResolves (m.writeCode ix options b) := by
  refine .bind (.lift (m.resolves_registerCounts options b)) fun _ _ _ _ => ?_
  refine .bind (.lift (Body.resolves_encode fun i hi r hm => hr r ⟨i, hi, hm⟩)) fun _ _ _ _ => ?_
  refine .bind (.lift Body.resolves_resolveTries) fun _ tries _ ht => ?_
  have ht := (stateLift_eq_ok.mp ht).1
  exact Stream.resolves_item (resolves_codeParts fun r hm x hx =>
    hc x.1 (Body.catches_of_resolveTries ht hm hx))

/-- The references of code that has been written have indices, if the operands fit. -/
theorem Method.ok_of_writeCode {options : Container.Options} {m : Method} {b : Body}
    {s t : Stream} {offset : UInt32} (hf : ∀ i ∈ b.instructions, i.fits i.operand = true)
    (h : m.writeCode ix options b s = .ok offset t) :
    ∀ r, b.Refers r → ∃ n, ix r = .ok n := by
  obtain ⟨_, _, -, h⟩ := stateBind_eq_ok.mp h
  obtain ⟨units, _, hu, -⟩ := stateBind_eq_ok.mp h
  rintro r ⟨i, hi, hr⟩
  exact Body.ok_of_encode hf (stateLift_eq_ok.mp hu).1 i hi r hr

end Item

end Dalvik
