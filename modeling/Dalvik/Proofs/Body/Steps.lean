/-
# Steps of an editor

What each edit does when it succeeds, as an equation for the body that it leaves; and that an edit
which fails leaves the body as it was, because every edit looks at the body before it changes it.

Main statements: `remove_eq`, `replaceOperand_eq_ok`, `addLabel_eq_ok`, `addTry_eq_ok`,
`retargetBranch_eq_ok`, and the lemmas `careful_…`.
-/
import Dalvik.Proofs.Body.Slots
import Dalvik.Proofs.Sorting

namespace Dalvik

namespace Editor

variable {α β : Type} {b b' : Body} {e : Error}

/-! ## 1. Questions -/

/-- A question that is answered leaves the body. -/
theorem ask_eq_ok {question : Body → Except Error α} {answer : α} :
    ask question b = .ok answer b' ↔ question b = .ok answer ∧ b = b' := by
  simp only [ask, stateBind_eq_ok, stateGet_eq_ok]
  constructor
  · rintro ⟨_, _, ⟨rfl, rfl⟩, h⟩
    cases hq : question b with
    | ok a =>
      rw [hq] at h
      obtain ⟨rfl, rfl⟩ := statePure_eq_ok.mp h
      exact ⟨rfl, rfl⟩
    | error c =>
      rw [hq] at h
      exact absurd h stateThrow_ne_ok
  · rintro ⟨h, rfl⟩
    exact ⟨b, b, ⟨rfl, rfl⟩, by rw [h]; rfl⟩

/-- A question that is not answered leaves the body. -/
theorem ask_eq_error {question : Body → Except Error α} :
    ask question b = .error e b' ↔ question b = .error e ∧ b = b' := by
  simp only [ask, stateBind_eq_error, stateGet_eq_ok, stateGet_ne_error, false_or]
  constructor
  · rintro ⟨_, _, ⟨rfl, rfl⟩, h⟩
    cases hq : question b with
    | ok a =>
      rw [hq] at h
      exact absurd h statePure_ne_error
    | error c =>
      rw [hq] at h
      obtain ⟨rfl, rfl⟩ := stateThrow_eq_error.mp h
      exact ⟨rfl, rfl⟩
  · rintro ⟨h, rfl⟩
    exact ⟨b, b, ⟨rfl, rfl⟩, by rw [h]; rfl⟩

/-- A question asked of many. -/
theorem forM_ask_eq_ok {γ : Type} {question : γ → Body → Except Error α} {l : List γ}
    {u : PUnit} :
    (l.forM fun x => do let _ ← ask (question x)) b = .ok u b' ↔
      (∀ x ∈ l, ∃ a, question x b = .ok a) ∧ b = b' := by
  induction l with
  | nil => simp [statePure_eq_ok]
  | cons x l ih =>
    have hrun : (x :: l).forM (fun x => do let _ ← ask (question x)) =
        ((do let _ ← ask (question x)) >>= fun _ =>
          l.forM fun x => do let _ ← ask (question x) : Editor Unit) := rfl
    rw [hrun, List.forall_mem_cons]
    simp only [stateBind_eq_ok, ask_eq_ok, statePure_eq_ok]
    constructor
    · rintro ⟨_, _, ⟨a, _, ⟨ha, rfl⟩, -, rfl⟩, hr⟩
      obtain ⟨hl, rfl⟩ := ih.mp hr
      exact ⟨⟨⟨a, ha⟩, hl⟩, rfl⟩
    · rintro ⟨⟨⟨a, ha⟩, hl⟩, rfl⟩
      exact ⟨(), b, ⟨a, b, ⟨ha, rfl⟩, trivial, rfl⟩, ih.mpr ⟨hl, rfl⟩⟩

/-- What an edit makes of a body is what its step leaves. -/
theorem outcome_eq_ok {step : Editor α} {a : α} :
    step.outcome b = .ok (b', a) ↔ step b = .ok a b' := by
  unfold outcome
  cases step b <;> simp [and_comm]

theorem outcome_eq_error {step : Editor α} :
    step.outcome b = .error e ↔ ∃ b', step b = .error e b' := by
  unfold outcome
  cases step b <;> simp

/-! ## 2. Fillers -/

/-- The slot of a filler. -/
def fillerSlot : Slot where
  instruction? := some .nop

/-- The handles of fillers in new slots. -/
def fillerHandles (issued count : Nat) : List Handle :=
  (List.range' issued count).map fun index => { index }

/-- A filler takes the slot behind all others, and stands at the place that it was inserted at. -/
theorem insertFiller_eq {before after : List Nat} (ho : b.order = (before ++ after).toArray) :
    insertFiller before.length b = .ok { index := b.slots.size }
      { b with
        slots := b.slots.push fillerSlot
        order := (before ++ b.slots.size :: after).toArray } := by
  rw [← insertIdx_length, ← List.insertIdxIfInBounds_toArray, ← ho]
  rfl

/-- Fillers take new slots, at consecutive places of the program. -/
theorem insertFillers_eq {before after : List Nat} {count : Nat}
    (ho : b.order = (before ++ after).toArray) :
    insertFillers before.length count b = .ok (fillerHandles b.slots.size count)
      { b with
        slots := b.slots ++ Array.replicate count fillerSlot
        order := (before ++ List.range' b.slots.size count ++ after).toArray } := by
  induction count generalizing before b with
  | zero =>
    simp only [insertFillers, statePure_eq_ok]
    refine ⟨rfl, ?_⟩
    obtain ⟨slots, order, labels, tries⟩ := b
    simp_all
  | succ count ih =>
    have hfirst := insertFiller_eq ho
    have hnext : (before ++ [b.slots.size]).length = before.length + 1 := by simp
    have hothers := @ih { b with
      slots := b.slots.push fillerSlot
      order := (before ++ b.slots.size :: after).toArray } (before ++ [b.slots.size]) (by simp)
    rw [hnext] at hothers
    simp only [insertFillers, stateBind_eq_ok, statePure_eq_ok]
    refine ⟨_, _, hfirst, _, _, hothers, ?_, ?_⟩
    · simp [fillerHandles, List.range'_succ]
    · simp [List.range'_succ, Array.replicate_succ']

/-! ## 3. Replacing -/

/-- A body with another instruction in a slot. -/
def replaced (b : Body) (index : Nat) (i : Instruction) : Body :=
  { b with slots := b.slots.modify index fun s => { s with instruction? := some i } }

/-- **Replacing** succeeds exactly if the operand fits the instruction and leaves its width, and
changes that one slot. -/
theorem replaceOperand_eq_ok {h : Handle} {operand : Operand} {u : Unit} :
    replaceOperand h operand b = .ok u b' ↔
      ∃ i, b.get h = .ok i ∧ i.checkOperand operand = .ok () ∧
        ({ i with operand } : Instruction).width = i.width ∧
          replaced b h.index { i with operand } = b' := by
  simp only [replaceOperand, stateBind_eq_ok, ask_eq_ok]
  constructor
  · rintro ⟨i, _, ⟨hi, rfl⟩, _, _, ⟨hc, rfl⟩, hr⟩
    split at hr
    · obtain ⟨_, _, hthrow, -⟩ := stateBind_eq_ok.mp hr
      exact absurd hthrow stateThrow_ne_ok
    · rename_i hw
      rw [bne_iff_ne, ne_eq, not_not] at hw
      exact ⟨i, hi, hc, hw, stateModify_eq_ok.mp hr⟩
  · rintro ⟨i, hi, hc, hw, hr⟩
    refine ⟨i, b, ⟨hi, rfl⟩, (), b, ⟨hc, rfl⟩, ?_⟩
    rw [hw, bne_self_eq_false, if_neg Bool.false_ne_true]
    exact stateModify_eq_ok.mpr hr

/-! ## 4. Removing -/

/-- The last handle that takes the place of a removed instruction. -/
def lastFiller (h : Handle) (issued width : Nat) : Handle :=
  (fillerHandles issued (width - 1)).getLastD h.next

/-- An instruction of one unit is replaced by one filler, in its own slot. -/
theorem lastFiller_of_zero {h : Handle} {issued width : Nat} (hw : width - 1 = 0) :
    lastFiller h issued width = h.next := by
  simp [lastFiller, hw, fillerHandles]

/-- The last filler of a wider instruction has the last of the new slots. -/
theorem lastFiller_of_succ {h : Handle} {issued width count : Nat} (hw : width - 1 = count + 1) :
    lastFiller h issued width = { index := issued + count } := by
  simp [lastFiller, hw, fillerHandles, List.range'_1_concat]

/-- A body whose instruction `h`, of some width, stands between `pre` and `post` and is removed. -/
def removed (b : Body) (h : Handle) (width : Nat) (pre post : List Nat) : Body where
  slots := b.slots.modify h.index Slot.retired ++ Array.replicate (width - 1) fillerSlot
  order := (pre ++ h.index :: List.range' b.slots.size (width - 1) ++ post).toArray
  labels := b.labels.map fun (name, target) => (name, Body.moved h h.next target)
  tries := b.tries.map (Body.movedTry h h.next (lastFiller h b.slots.size width))

/-- The first place of a slot that does not occur before. -/
theorem idxOf?_split {before after : List Nat} {k : Nat} (hn : k ∉ before) :
    (before ++ k :: after).idxOf? k = some before.length := by
  induction before with
  | nil => simp [List.idxOf?_cons]
  | cons j before ih =>
    rw [List.mem_cons, not_or] at hn
    have hj : (j == k) = false := by simpa using Ne.symm hn.1
    rw [List.cons_append, List.idxOf?_cons, hj, ih hn.2]
    rfl

/-- A handle that names nothing removes nothing. -/
theorem remove_eq_error {h : Handle} (hi : b.get h = .error e) : remove h b = .error e b := by
  simp only [remove, stateBind_eq_error]
  exact .inl (ask_eq_error.mpr ⟨hi, rfl⟩)

/-- **Removing** puts the first filler in the slot of the instruction and the others in new ones,
and moves labels and ranges to them. -/
theorem remove_eq {h : Handle} {i : Instruction} {before after : List Nat} (hi : b.get h = .ok i)
    (ho : b.order = (before ++ h.index :: after).toArray) (hn : h.index ∉ before) :
    remove h b = .ok (h.next :: fillerHandles b.slots.size (i.width - 1))
      (removed b h i.width before after) := by
  have hplace : b.order.idxOf? h.index = some before.length := by
    rw [ho, List.idxOf?_toArray, idxOf?_split hn]
  have hfill := @insertFillers_eq { b with slots := b.slots.modify h.index Slot.retired }
    (before ++ [h.index]) after (i.width - 1) (by simp [ho])
  simp only [List.length_append, List.length_singleton] at hfill
  simp only [remove, stateBind_eq_ok, ask_eq_ok, stateGet_eq_ok]
  refine ⟨i, b, ⟨hi, rfl⟩, b, b, ⟨rfl, rfl⟩, ?_⟩
  rw [hplace]
  simp only [stateBind_eq_ok, stateModify_eq_ok, statePure_eq_ok]
  refine ⟨(), _, rfl, _, _, hfill, (), _, rfl, ?_, ?_⟩
  · simp
  · simp [removed, lastFiller]

/-! ## 5. Labels, branches and ranges -/

/-- **Labelling** succeeds exactly if the handle is live and the name is new. -/
theorem addLabel_eq_ok {name : String} {h : Handle} {u : Unit} :
    addLabel name h b = .ok u b' ↔
      b.Live h ∧ b.label? name = none ∧ { b with labels := b.labels ++ [(name, h)] } = b' := by
  simp only [addLabel, stateBind_eq_ok, ask_eq_ok, stateGet_eq_ok]
  constructor
  · rintro ⟨i, _, ⟨hi, rfl⟩, _, _, ⟨rfl, rfl⟩, hr⟩
    split at hr
    · obtain ⟨_, _, hthrow, -⟩ := stateBind_eq_ok.mp hr
      exact absurd hthrow stateThrow_ne_ok
    · rename_i hn
      exact ⟨⟨i, hi⟩, by simpa using hn, stateModify_eq_ok.mp hr⟩
  · rintro ⟨⟨i, hi⟩, hn, hr⟩
    refine ⟨i, b, ⟨hi, rfl⟩, b, b, ⟨rfl, rfl⟩, ?_⟩
    rw [hn, if_neg (by simp)]
    exact stateModify_eq_ok.mpr hr

/-- **Retargeting** is replacing the distance of a branch by that to a label, if it has 32 bits. -/
theorem retargetBranch_eq_ok {h : Handle} {label : String} {u : Unit} :
    retargetBranch h label b = .ok u b' ↔
      ∃ i d target source, b.get h = .ok i ∧ i.operand = .branch d ∧
        b.labelOffset label = .ok target ∧ b.offsetOf h = .ok source ∧
          fitsSigned 32 ((target : Int) - source) = true ∧
            replaceOperand h (.branch (Int32.ofInt ((target : Int) - source))) b = .ok u b' := by
  simp only [retargetBranch, stateBind_eq_ok, ask_eq_ok]
  constructor
  · rintro ⟨i, _, ⟨hi, rfl⟩, hr⟩
    cases hd : i.operand with
    | branch d =>
      rw [hd] at hr
      simp only [stateBind_eq_ok, ask_eq_ok] at hr
      obtain ⟨target, _, ⟨ht, rfl⟩, source, _, ⟨hs, rfl⟩, hr⟩ := hr
      split at hr
      · obtain ⟨_, _, hthrow, -⟩ := stateBind_eq_ok.mp hr
        exact absurd hthrow stateThrow_ne_ok
      · rename_i hf
        exact ⟨i, d, target, source, hi, hd, ht, hs, by simpa using hf, hr⟩
    | _ =>
      rw [hd] at hr
      exact absurd hr stateThrow_ne_ok
  · rintro ⟨i, d, target, source, hi, hd, ht, hs, hf, hr⟩
    refine ⟨i, b, ⟨hi, rfl⟩, ?_⟩
    rw [hd]
    simp only [stateBind_eq_ok, ask_eq_ok]
    refine ⟨target, b, ⟨ht, rfl⟩, source, b, ⟨hs, rfl⟩, ?_⟩
    rw [hf, if_neg (by simp)]
    exact hr

/-- **Adding a range** succeeds exactly if all its handles are live, and the bounds of all ranges
are found, those of earlier ones among them. -/
theorem addTry_eq_ok {t : TryRange} {u : Unit} :
    addTry t b = .ok u b' ↔
      (∀ h ∈ t.handles, b.Live h) ∧ (∃ bounds, b.tryBounds t = .ok bounds) ∧
        (∀ other ∈ b.tries, ∃ bounds, b.tryBounds other = .ok bounds) ∧
          { b with tries := b.tries ++ [t] } = b' := by
  simp only [addTry, stateBind_eq_ok, forM_ask_eq_ok, ask_eq_ok, stateGet_eq_ok, stateModify_eq_ok]
  constructor
  · rintro ⟨_, _, ⟨hl, rfl⟩, bounds, _, ⟨ht, rfl⟩, _, _, ⟨rfl, rfl⟩, _, _, ⟨ho, rfl⟩, hr⟩
    exact ⟨hl, ⟨bounds, ht⟩, ho, hr⟩
  · rintro ⟨hl, ⟨bounds, ht⟩, ho, hr⟩
    exact ⟨(), b, ⟨hl, rfl⟩, bounds, b, ⟨ht, rfl⟩, b, b, ⟨rfl, rfl⟩, (), b, ⟨ho, rfl⟩, hr⟩

/-! ## 6. Steps that fail -/

/-- A step that fails leaves the body as it was. -/
def Careful (step : Editor α) : Prop :=
  ∀ ⦃b b' : Body⦄ ⦃e : Error⦄, step b = .error e b' → b' = b

/-- A step that only looks at the body. -/
structure Reads (step : Editor α) : Prop where
  careful : Careful step
  ok : ∀ ⦃b b' : Body⦄ ⦃a : α⦄, step b = .ok a b' → b' = b

/-- A step that does not fail. -/
def Total (step : Editor α) : Prop :=
  ∀ ⦃b b' : Body⦄ ⦃e : Error⦄, step b ≠ .error e b'

theorem Total.careful {step : Editor α} (h : Total step) : Careful step :=
  fun _ _ _ hs => (h hs).elim

/-- Steps that do not fail compose. -/
theorem Total.bind {step : Editor α} {next : α → Editor β} (h : Total step)
    (hn : ∀ a, Total (next a)) : Total (step >>= next) := by
  intro b b' e hs
  rcases stateBind_eq_error.mp hs with hs | ⟨a, b₁, -, hs⟩
  · exact h hs
  · exact hn a hs

/-- Looking first does no harm. -/
theorem Reads.bind_careful {step : Editor α} {next : α → Editor β} (h : Reads step)
    (hn : ∀ a, Careful (next a)) : Careful (step >>= next) := by
  intro b b' e hs
  rcases stateBind_eq_error.mp hs with hs | ⟨a, b₁, hb, hs⟩
  · exact h.careful hs
  · rw [hn a hs, h.ok hb]

/-- Looking twice is looking. -/
theorem Reads.bind {step : Editor α} {next : α → Editor β} (h : Reads step)
    (hn : ∀ a, Reads (next a)) : Reads (step >>= next) where
  careful := h.bind_careful fun a => (hn a).careful
  ok := by
    intro b b' c hs
    obtain ⟨a, b₁, hb, hs⟩ := stateBind_eq_ok.mp hs
    rw [(hn a).ok hs, h.ok hb]

theorem reads_get : Reads (get : Editor Body) where
  careful _ _ _ h := absurd h stateGet_ne_error
  ok _ _ _ h := (stateGet_eq_ok.mp h).2.symm

theorem reads_pure (a : α) : Reads (pure a : Editor α) where
  careful _ _ _ h := absurd h statePure_ne_error
  ok _ _ _ h := (statePure_eq_ok.mp h).2.symm

theorem reads_throw (e : Error) : Reads (throw e : Editor α) where
  careful _ _ _ h := (stateThrow_eq_error.mp h).2.symm
  ok _ _ _ h := absurd h stateThrow_ne_ok

theorem total_modify (f : Body → Body) : Total (modify f : Editor PUnit) :=
  fun _ _ _ => stateModify_ne_error

theorem total_pure (a : α) : Total (pure a : Editor α) :=
  fun _ _ _ => statePure_ne_error

/-- A question looks at the body, whatever the answer. -/
theorem reads_ask (question : Body → Except Error α) : Reads (ask question) := by
  refine reads_get.bind fun b => ?_
  cases question b with
  | ok a => exact reads_pure a
  | error c => exact reads_throw c

/-- Questions asked of many only look at the body. -/
theorem reads_forM {γ : Type} {step : γ → Editor PUnit} (h : ∀ x, Reads (step x)) :
    ∀ l : List γ, Reads (l.forM step)
  | [] => reads_pure _
  | x :: l => (h x).bind fun _ => reads_forM h l

/-- Making room never fails, so what `remove` has done so far is not lost. -/
theorem total_insertFillers : ∀ place count : Nat, Total (insertFillers place count)
  | _, 0 => total_pure _
  | place, count + 1 => by
    have hfirst : Total (insertFiller place) := fun _ _ _ => stateModifyGet_ne_error
    refine hfirst.bind fun filler => ?_
    exact (total_insertFillers (place + 1) count).bind fun _ => total_pure _

/-- The checks come before the slot is changed. -/
theorem careful_replaceOperand (h : Handle) (operand : Operand) :
    Careful (replaceOperand h operand) := by
  refine (reads_ask _).bind_careful fun i => (reads_ask _).bind_careful fun _ => ?_
  dsimp only
  split
  · exact (reads_throw _).bind_careful fun _ => (total_modify _).careful
  · exact (total_modify _).careful

/-- Only the handle is checked, and it is checked first. -/
theorem careful_remove (h : Handle) : Careful (remove h) := by
  refine (reads_ask _).bind_careful fun i => reads_get.bind_careful fun b => ?_
  split
  · refine Total.careful ((total_modify _).bind fun _ => ?_)
    refine (total_insertFillers _ _).bind fun _ => ?_
    exact (total_modify _).bind fun _ => total_pure _
  · exact (reads_throw _).careful

theorem careful_addLabel (name : String) (h : Handle) : Careful (addLabel name h) := by
  refine (reads_ask _).bind_careful fun i => reads_get.bind_careful fun b => ?_
  split
  · exact (reads_throw _).bind_careful fun _ => (total_modify _).careful
  · exact (total_modify _).careful

/-- All that is asked comes before the replacement, which is careful itself. -/
theorem careful_retargetBranch (h : Handle) (label : String) :
    Careful (retargetBranch h label) := by
  refine (reads_ask _).bind_careful fun i => ?_
  split
  · refine (reads_ask _).bind_careful fun target => (reads_ask _).bind_careful fun source => ?_
    dsimp only
    split
    · exact (reads_throw _).bind_careful fun _ => careful_replaceOperand _ _
    · exact careful_replaceOperand _ _
  · exact (reads_throw _).careful

theorem careful_addTry (t : TryRange) : Careful (addTry t) := by
  refine (reads_forM (fun h => (reads_ask _).bind fun _ => reads_pure _) _).bind_careful fun _ => ?_
  refine (reads_ask _).bind_careful fun _ => reads_get.bind_careful fun b => ?_
  refine (reads_forM (fun h => (reads_ask _).bind fun _ => reads_pure _) _).bind_careful fun _ => ?_
  exact (total_modify _).careful

end Editor

end Dalvik
