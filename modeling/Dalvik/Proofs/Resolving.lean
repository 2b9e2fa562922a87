/-
# Outcomes other than a reference without an entry

Writing fails for many reasons, and one of them is a reference, or a shared item, without an entry.
`Resolves` says of an outcome, and `StepResolves` of a step over a state, that it is not this one.
Both follow the structure of a program: a sequence resolves if its steps do, each given what the
steps before it answered.
-/
import Dalvik.Container.Stream
import Dalvik.Proofs.Outcome

namespace Dalvik

variable {σ α β : Type}

/-! ## 1. Without a state -/

/-- The outcome is not the failure of a reference without an entry. -/
def Resolves (x : Except Error α) : Prop :=
  ∀ what, x ≠ .error (.danglingReference what)

@[simp] theorem resolves_ok {a : α} : Resolves (.ok a) := by
  simp [Resolves]

@[simp] theorem resolves_pure {a : α} : Resolves (pure a) :=
  resolves_ok

@[simp] theorem resolves_error {e : Error} :
    Resolves (.error e : Except Error α) ↔ ∀ what, e ≠ .danglingReference what := by
  simp [Resolves]

@[simp] theorem resolves_throw {e : Error} :
    Resolves (throw e : Except Error α) ↔ ∀ what, e ≠ .danglingReference what :=
  resolves_error

/-- A sequence resolves if its first step does, and the rest does after what that answers. -/
@[simp] theorem resolves_bind {x : Except Error α} {f : α → Except Error β} :
    Resolves (x >>= f) ↔ Resolves x ∧ ∀ a, x = .ok a → Resolves (f a) := by
  cases x with
  | error e => simp [bind, Except.bind]
  | ok a => simp [bind, Except.bind]

@[simp] theorem resolves_map {x : Except Error α} {f : α → β} :
    Resolves (x.map f) ↔ Resolves x := by
  cases x <;> simp [Except.map]

@[simp] theorem resolves_functorMap {x : Except Error α} {f : α → β} :
    Resolves (f <$> x) ↔ Resolves x :=
  resolves_map

/-- A step over a list resolves if it does at every item. -/
theorem resolves_mapM {f : α → Except Error β} {l : List α} (h : ∀ a ∈ l, Resolves (f a)) :
    Resolves (l.mapM f) :=
  fun what => mapM_ne_error fun a ha => h a ha what

/-- A step that goes on from what the last one answered resolves likewise. -/
theorem resolves_foldlM {f : β → α → Except Error β} {l : List α} {b : β}
    (h : ∀ b, ∀ a ∈ l, Resolves (f b a)) : Resolves (l.foldlM f b) := by
  induction l generalizing b with
  | nil => simp
  | cons a rest ih =>
    rw [List.foldlM_cons, resolves_bind]
    exact ⟨h b a (List.mem_cons_self ..), fun _ _ => ih fun b' c hc =>
      h b' c (List.mem_cons_of_mem _ hc)⟩

/-- Locating a failure does not change its kind. -/
theorem resolves_inside {x : Except Error α} (context : String) (h : Resolves x) :
    Resolves (x.mapError (Error.inside context)) := by
  cases x with
  | ok a => exact resolves_ok
  | error e =>
    intro what
    cases e with
    | danglingReference w => exact (h w rfl).elim
    | _ => simp [Except.mapError, Error.inside]

/-- A number that is too great is another failure. -/
@[simp] theorem resolves_narrow32 {n : Nat} : Resolves (Bytes.narrow32 n) := by
  unfold Bytes.narrow32
  split <;> simp

@[simp] theorem resolves_narrow16 {n : Nat} : Resolves (Bytes.narrow16 n) := by
  unfold Bytes.narrow16
  split <;> simp

/-! ## 2. Parts -/

@[simp] theorem resolves_count {n : Nat} : Resolves (Part.count n) := by
  simp [Part.count, Part.uleb128]

@[simp] theorem resolves_uleb128 {word : Except Error UInt32} :
    Resolves (Part.uleb128 word) ↔ Resolves word :=
  resolves_map

/-- An item in parts resolves if every part does. -/
theorem resolves_joined {parts : List Part} (h : ∀ p ∈ parts, Resolves p) :
    Resolves (Part.joined parts) := by
  induction parts with
  | nil => exact resolves_ok
  | cons p rest ih =>
    have hrest := ih fun q hq => h q (List.mem_cons_of_mem _ hq)
    simp [Part.joined, h p (List.mem_cons_self ..), hrest]

/-! ## 3. Over a state -/

/-- The step does not fail for a reference without an entry, from whatever state. -/
def StepResolves (x : EStateM Error σ α) : Prop :=
  ∀ s what t, x s ≠ .error (.danglingReference what) t

theorem StepResolves.pure (a : α) : StepResolves (pure a : EStateM Error σ α) :=
  fun _ _ _ => statePure_ne_error

theorem StepResolves.modify (f : σ → σ) : StepResolves (modify f : EStateM Error σ PUnit) :=
  fun _ _ _ => stateModify_ne_error

theorem StepResolves.throw {e : Error} (he : ∀ what, e ≠ .danglingReference what) :
    StepResolves (throw e : EStateM Error σ α) :=
  fun _ what _ h => he what (stateThrow_eq_error.mp h).1

/-- A sequence of steps resolves, each from a state that the step before can leave. -/
theorem StepResolves.bind {x : EStateM Error σ α} {f : α → EStateM Error σ β}
    (hx : StepResolves x) (hf : ∀ s a t, x s = .ok a t → StepResolves (f a)) :
    StepResolves (x >>= f) :=
  fun s what => stateBind_ne_error (hx s what) fun a u hs => hf s a u hs u what

/-- A choice between two first steps. -/
theorem StepResolves.ite_bind {p : Prop} [Decidable p] {x y : EStateM Error σ α}
    {f : α → EStateM Error σ β} (hx : p → StepResolves x) (hy : ¬ p → StepResolves y)
    (hf : ∀ a, StepResolves (f a)) : StepResolves (if p then x >>= f else y >>= f) := by
  split
  case isTrue h => exact .bind (hx h) fun _ a _ _ => hf a
  case isFalse h => exact .bind (hy h) fun _ a _ _ => hf a

/-- A step over a list resolves if it does at every item, from whatever state. -/
theorem StepResolves.mapM {f : α → EStateM Error σ β} {l : List α}
    (h : ∀ a ∈ l, StepResolves (f a)) : StepResolves (l.mapM f) := by
  induction l with
  | nil => exact .pure _
  | cons a rest ih =>
    rw [List.mapM_cons]
    exact .bind (h a (List.mem_cons_self ..)) fun _ _ _ _ =>
      .bind (ih fun b hb => h b (List.mem_cons_of_mem _ hb)) fun _ _ _ _ => .pure _

/-- A step without a state resolves from any state. -/
theorem StepResolves.lift {x : Except Error α} (hx : Resolves x) :
    StepResolves (MonadLift.monadLift x : EStateM Error σ α) := by
  intro s what t h
  cases x with
  | ok a => exact statePure_ne_error h
  | error e =>
    obtain ⟨rfl, -⟩ := stateThrow_eq_error.mp h
    exact hx what rfl

/-- A step without a state leaves the state. -/
theorem stateLift_eq_ok {x : Except Error α} {s t : σ} {a : α} :
    (MonadLift.monadLift x : EStateM Error σ α) s = .ok a t ↔ x = .ok a ∧ s = t := by
  cases x with
  | ok b => exact statePure_eq_ok.trans (by simp)
  | error e => exact ⟨fun h => (stateThrow_ne_ok h).elim, fun h => by cases h.1⟩

/-! ## 4. Streams -/

namespace Stream

theorem resolves_align (alignment : Nat) : StepResolves (align alignment) :=
  .modify _

/-- An offset can only be too great. -/
theorem resolves_next (s : Stream) : Resolves s.next := by
  rw [next, resolves_bind]
  refine ⟨resolves_narrow32, fun n _ => ?_⟩
  split <;> simp

theorem resolves_position : StepResolves position :=
  .bind (fun _ _ _ => stateGet_ne_error) fun _ _ _ _ => .lift (resolves_next _)

/-- Appending parts resolves if every part does; what precedes a failure stays. -/
theorem resolves_parts {list : List Part} (h : ∀ p ∈ list, Resolves p) :
    StepResolves (parts list) := by
  induction list with
  | nil => exact .pure _
  | cons p rest ih =>
    have hrest := ih fun q hq => h q (List.mem_cons_of_mem _ hq)
    cases p with
    | ok data => exact .bind (.modify _) fun _ _ _ _ => hrest
    | error e => exact .throw (resolves_error.mp (h _ (List.mem_cons_self ..)))

/-- An item is aligned first, and its offset taken, before its parts are appended. -/
theorem resolves_item {alignment : Nat} {list : List Part} (h : ∀ p ∈ list, Resolves p) :
    StepResolves (item alignment list) :=
  .bind (resolves_align _) fun _ _ _ _ => .bind resolves_position fun _ _ _ _ =>
    .bind (resolves_parts h) fun _ _ _ _ => .pure _

/-- Items resolve one after the other. -/
theorem resolves_items {alignment : Nat} {list : List (List Part)}
    (h : ∀ item ∈ list, ∀ p ∈ item, Resolves p) : StepResolves (items alignment list) := by
  induction list with
  | nil => exact .pure _
  | cons first rest ih =>
    have hrest := ih fun q hq => h q (List.mem_cons_of_mem _ hq)
    exact .bind (resolves_item (h first (List.mem_cons_self ..))) fun _ _ _ _ =>
      .bind hrest fun _ _ _ _ => .pure _

theorem resolves_inside {step : StreamWriter α} (context : String) (h : StepResolves step) :
    StepResolves (inside context step) := by
  intro s what t hi
  unfold inside at hi
  split at hi
  case h_1 => cases hi
  case h_2 e u hs =>
    cases e with
    | danglingReference w => exact h s w u hs
    | _ => cases hi

/-- Naming what is written changes failures only. -/
theorem inside_eq_ok {step : StreamWriter α} {context : String} {s t : Stream} {a : α} :
    inside context step s = .ok a t ↔ step s = .ok a t := by
  unfold inside
  cases step s <;> simp

/-! ## 5. What has been written -/

/-- Every part of what has been written is there. -/
theorem ok_of_parts {list : List Part} {s t : Stream} {u : Unit} (h : parts list s = .ok u t) :
    ∀ p ∈ list, ∃ d, p = .ok d := by
  induction list generalizing s with
  | nil => simp
  | cons p rest ih =>
    cases p with
    | error e => exact (stateThrow_ne_ok h).elim
    | ok data =>
      obtain ⟨_, v, -, h⟩ := stateBind_eq_ok.mp h
      rintro q (_ | ⟨_, hq⟩)
      · exact ⟨data, rfl⟩
      · exact ih h q hq

/-- Every part of an item that has been written is there. -/
theorem ok_of_item {alignment : Nat} {list : List Part} {s t : Stream} {offset : UInt32}
    (h : item alignment list s = .ok offset t) : ∀ p ∈ list, ∃ d, p = .ok d := by
  obtain ⟨_, _, -, h⟩ := stateBind_eq_ok.mp h
  obtain ⟨_, _, -, h⟩ := stateBind_eq_ok.mp h
  obtain ⟨_, _, h, -⟩ := stateBind_eq_ok.mp h
  exact ok_of_parts h

/-- Every part of items that have been written is there, and each item has its offset. -/
theorem ok_of_items {alignment : Nat} {list : List (List Part)} {s t : Stream}
    {offsets : List UInt32} (h : items alignment list s = .ok offsets t) :
    offsets.length = list.length ∧ ∀ item ∈ list, ∀ p ∈ item, ∃ d, p = .ok d := by
  induction list generalizing s t offsets with
  | nil =>
    obtain ⟨rfl, -⟩ := statePure_eq_ok.mp h
    simp
  | cons first rest ih =>
    obtain ⟨offset, _, hf, h⟩ := stateBind_eq_ok.mp h
    obtain ⟨more, _, hr, h⟩ := stateBind_eq_ok.mp h
    obtain ⟨rfl, -⟩ := statePure_eq_ok.mp h
    obtain ⟨hlen, hall⟩ := ih hr
    refine ⟨by rw [List.length_cons, List.length_cons, hlen], ?_⟩
    rintro item (_ | ⟨_, hi⟩)
    · exact ok_of_item hf
    · exact hall item hi

end Stream

end Dalvik
