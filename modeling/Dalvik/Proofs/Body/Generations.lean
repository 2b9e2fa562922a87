/-
# How long a handle is good

A slot counts, modulo 2 ^ 32, how often its instruction has been removed, and a handle remembers the
count at which it was issued.  So a handle that a call issued is good again and again: exactly when
the number of removals that its slot has seen since is a multiple of 2 ^ 32.  As long as there were
none, it names the instruction for which it was issued; from the first to the last before 2 ^ 32,
every call that is given the handle fails.

* `generation?_after`: what a run does to the count of a slot;
* `get_after`: what a run without removals from a slot leaves of its instruction;
* `accepts_iff_live`, `rejects_iff_not_live`: the calls that look a handle up agree;
* `issued_handle_valid_iff`: the main statement;
* `removals_drain`: every number of removals is reached, so both sides of it occur.
-/
import Dalvik.Proofs.Body.Reachable

namespace Dalvik

/-! ## 1. Counting removals -/

namespace Edit

/-- The slot whose instruction a call removes. -/
def removedSlot? : Edit → Option Nat
  | remove h => some h.index
  | _ => none

/-- Whether a call succeeds. -/
def succeeds (e : Edit) (b : Body) : Bool :=
  match e.perform b with
  | .ok .. => true
  | .error .. => false

/-- Whether a call removes the instruction of a slot, and succeeds. -/
def removesFrom (e : Edit) (k : Nat) (b : Body) : Bool :=
  e.removedSlot? == some k && e.succeeds b

variable {e : Edit} {b b' : Body} {k : Nat}

theorem removesFrom_of_ok {issued : List Handle} (hrun : e.perform b = .ok issued b') :
    e.removesFrom k b = (e.removedSlot? == some k) := by
  simp [removesFrom, succeeds, hrun]

theorem removesFrom_of_error {cause : Error} (hrun : e.perform b = .error cause b') :
    e.removesFrom k b = false := by
  simp [removesFrom, succeeds, hrun]

theorem removedSlot?_of_operandOf? {h : Handle} (he : e.operandOf? = some h) :
    e.removedSlot? = none := by
  cases e with
  | remove h => cases he
  | _ => rfl

end Edit

namespace Body

/-- The number of removals from a slot that succeed in a run. -/
def removals (k : Nat) : Body → List Edit → Nat
  | _, [] => 0
  | b, e :: rest => (if e.removesFrom k b then 1 else 0) + removals k (e.after b) rest

/-! ## 2. The generation of a slot -/

/-- The generation of a slot. -/
def generation? (b : Body) (k : Nat) : Option UInt32 :=
  b.slots[k]?.map (·.generation)

theorem Sound.live_iff_generation? {b : Body} (hb : b.Sound) {h : Handle} :
    b.Live h ↔ b.generation? h.index = some h.generation := by
  constructor
  · rintro ⟨i, hi⟩
    rw [generation?, get_eq_ok.mp hi]
    rfl
  · intro hg
    obtain ⟨slot, hs, hgen⟩ := Option.map_eq_some_iff.mp hg
    obtain ⟨i, hi⟩ := hb.filled hs
    refine ⟨i, get_eq_ok.mpr ?_⟩
    rw [hs, ← hgen, ← hi]

section Step

variable {b b' : Body} {e : Edit} {issued : List Handle} {k : Nat}

theorem Effect.generation? (he : Effect b e issued b') (hk : k < b.slots.size) :
    b'.generation? k =
      (b.generation? k).map (· + if e.removedSlot? == some k then 1 else 0) := by
  cases he with
  | pushed i =>
    simp [Body.generation?, push_slots_of_lt b i hk, Edit.removedSlot?, Function.comp_def]
  | @removed h i pre post hi ho =>
    rw [Body.generation?, removed_slots_of_lt b h i.width pre post hk]
    by_cases hkh : k = h.index
    · simp [Body.generation?, Edit.removedSlot?, hkh, Slot.retired, Function.comp_def]
    · simp [Body.generation?, Edit.removedSlot?, hkh, Ne.symm hkh, Function.comp_def]
  | @replaced _ h i operand hop hi hc hw =>
    rw [Body.generation?, replaced_slots, Edit.removedSlot?_of_operandOf? hop]
    by_cases hkh : k = h.index
    · simp [Body.generation?, hkh, Function.comp_def]
    · simp [Body.generation?, hkh, Function.comp_def]
  | labelled hl hn => simp [Body.generation?, Edit.removedSlot?, Function.comp_def]
  | guarded hl => simp [Body.generation?, Edit.removedSlot?, Function.comp_def]

theorem generation?_after_one (hb : b.Sound) (hk : k < b.slots.size) :
    (e.after b).generation? k =
      (b.generation? k).map (· + if e.removesFrom k b then 1 else 0) := by
  cases hrun : e.perform b with
  | ok issued b' =>
    rw [Edit.after_of_ok hrun, Edit.removesFrom_of_ok hrun]
    exact (hb.effect hrun).generation? hk
  | error cause b' =>
    rw [Edit.after_of_error hrun, Edit.removesFrom_of_error hrun]
    simp

end Step

/-- **A slot counts the removals from it.**  By induction on the run; the step is
`generation?_after_one`. -/
theorem generation?_after {b : Body} (hb : b.Anchored) {k : Nat} (hk : k < b.slots.size)
    (rest : List Edit) :
    (b.after rest).generation? k =
      (b.generation? k).map (· + UInt32.ofNat (b.removals k rest)) := by
  induction rest generalizing b with
  | nil => simp [after, removals]
  | cons e rest ih =>
    obtain ⟨ha, hkeeps, -⟩ := after_keeps_one hb e
    have hstep := generation?_after_one (e := e) hb.sound hk
    have hrest := ih ha (Nat.lt_of_lt_of_le hk hkeeps.size_le)
    rw [hstep, Option.map_map] at hrest
    refine hrest.trans (congrArg (Option.map · _) (funext fun g => ?_))
    rw [removals, UInt32.ofNat_add]
    split <;> simp [UInt32.add_assoc]

/-- A count of 32 bits comes back after 2 ^ 32 steps. -/
theorem add_ofNat_eq_self_iff (g : UInt32) (n : Nat) : g + UInt32.ofNat n = g ↔ 2 ^ 32 ∣ n := by
  have hg := g.toNat_lt
  rw [← UInt32.toNat_inj, UInt32.toNat_add, UInt32.toNat_ofNat']
  omega

theorem live_after_iff {b : Body} (hb : b.Anchored) {h : Handle} (hl : b.Live h)
    (rest : List Edit) : (b.after rest).Live h ↔ 2 ^ 32 ∣ b.removals h.index rest := by
  have hsound := (after_keeps hb rest).1.sound
  rw [hsound.live_iff_generation?, generation?_after hb (index_lt hl),
    hb.sound.live_iff_generation?.mp hl, Option.map_some, Option.some.injEq,
    add_ofNat_eq_self_iff]

/-! ## 3. The instruction of a slot -/

section Kept

variable {b b' : Body} {e : Edit} {issued : List Handle} {h : Handle} {i : Instruction}

/-- A call that does not remove an instruction leaves all of it but its operand, and the operand as
well if the call is not about that. -/
theorem Effect.get (he : Effect b e issued b') (hi : b.get h = .ok i)
    (hn : e.removedSlot? ≠ some h.index) :
    ∃ operand, b'.get h = .ok { i with operand } ∧
      (e.operandOf? ≠ some h → operand = i.operand) := by
  have hk := index_lt ⟨i, hi⟩
  have hsame (hs : b'.slots[h.index]? = b.slots[h.index]?) : ∃ operand,
      b'.get h = .ok { i with operand } ∧ (e.operandOf? ≠ some h → operand = i.operand) :=
    ⟨i.operand, (get_congr hs).trans hi, fun _ => rfl⟩
  cases he with
  | pushed j => exact hsame (push_slots_of_lt b j hk)
  | @removed h' j pre post hj ho =>
    have hne : h.index ≠ h'.index := fun he => hn (congrArg some he.symm)
    exact hsame (by rw [removed_slots_of_lt b h' j.width pre post hk, if_neg hne])
  | @replaced _ h' j operand hop hj hc hw =>
    by_cases hkh : h.index = h'.index
    · obtain rfl := Live.eq_of_index ⟨i, hi⟩ ⟨j, hj⟩ hkh
      obtain rfl := Except.ok.inj (hi.symm.trans hj)
      exact ⟨operand, get_replaced hi _, fun hne => absurd hop hne⟩
    · exact hsame (by rw [replaced_slots, if_neg hkh])
  | labelled hl hn => exact hsame rfl
  | guarded hl => exact hsame rfl

theorem get_after_one (hb : b.Sound) (hi : b.get h = .ok i)
    (hn : e.removesFrom h.index b = false) :
    ∃ operand, (e.after b).get h = .ok { i with operand } ∧
      (e.operandOf? ≠ some h → operand = i.operand) := by
  cases hrun : e.perform b with
  | ok issued b' =>
    rw [Edit.removesFrom_of_ok hrun, beq_eq_false_iff_ne] at hn
    rw [Edit.after_of_ok hrun]
    exact (hb.effect hrun).get hi hn
  | error cause b' =>
    rw [Edit.after_of_error hrun]
    exact ⟨i.operand, hi, fun _ => rfl⟩

/-- **A run without removals from a slot leaves its instruction.** -/
theorem get_after (hb : b.Anchored) (hi : b.get h = .ok i) {rest : List Edit}
    (hn : b.removals h.index rest = 0) :
    ∃ operand, (b.after rest).get h = .ok { i with operand } ∧
      ((∀ e ∈ rest, e.operandOf? ≠ some h) → operand = i.operand) := by
  induction rest generalizing b i with
  | nil => exact ⟨i.operand, hi, fun _ => rfl⟩
  | cons e rest ih =>
    have hfirst : e.removesFrom h.index b = false := by
      by_contra he
      rw [removals, if_pos (by simpa using he)] at hn
      omega
    rw [removals, hfirst, if_neg Bool.false_ne_true, Nat.zero_add] at hn
    obtain ⟨operand, hget, hsame⟩ := get_after_one hb.sound hi hfirst
    obtain ⟨operand', hget', hsame'⟩ := ih (after_keeps_one hb e).1 hget hn
    refine ⟨operand', hget', fun hall => ?_⟩
    rw [List.forall_mem_cons] at hall
    rw [hsame' hall.2, hsame hall.1]

end Kept

/-! ## 4. Calls that look a handle up -/

/-- No call fails because the handle is not found. -/
structure Accepts (b : Body) (h : Handle) : Prop where
  get : ∃ i, b.get h = .ok i
  offset : ∃ offset, b.offsetOf h = .ok offset
  replace : ∀ operand, b.replaceOperand h operand ≠ .error .instructionNotFound
  remove : ∃ b' fillers, b.remove h = .ok (b', fillers)
  label : ∀ name, b.addLabel name h ≠ .error .instructionNotFound

/-- Every call fails because the handle is not found. -/
structure Rejects (b : Body) (h : Handle) : Prop where
  get : b.get h = .error .instructionNotFound
  offset : b.offsetOf h = .error .instructionNotFound
  replace : ∀ operand, b.replaceOperand h operand = .error .instructionNotFound
  remove : b.remove h = .error .instructionNotFound
  label : ∀ name, b.addLabel name h = .error .instructionNotFound

section LookUp

variable {b : Body} {h : Handle}

theorem ask_get_ne_notFound (hl : b.Live h) (b' : Body) :
    Editor.ask (·.get h) b ≠ .error .instructionNotFound b' := by
  obtain ⟨i, hi⟩ := hl
  rw [Ne, Editor.ask_eq_error, hi]
  simp

theorem checkOperand_ne_notFound (i : Instruction) (operand : Operand) :
    i.checkOperand operand ≠ .error .instructionNotFound := by
  unfold Instruction.checkOperand
  repeat' split
  all_goals simp

theorem Live.replaceOperand_ne_notFound (hl : b.Live h) (operand : Operand) :
    b.replaceOperand h operand ≠ .error .instructionNotFound := by
  rw [replaceOperand, Ne, map_eq_error, Editor.outcome_eq_error, not_exists]
  refine stateBind_ne_error (ask_get_ne_notFound hl) fun i u _ => ?_
  refine stateBind_ne_error ?_ fun _ u _ => ?_
  · intro t h
    exact checkOperand_ne_notFound i operand (Editor.ask_eq_error.mp h).1
  · dsimp only
    split
    · exact stateThrow_bind_ne_error (by simp)
    · exact fun _ => stateModify_ne_error

theorem Live.addLabel_ne_notFound (hl : b.Live h) (name : String) :
    b.addLabel name h ≠ .error .instructionNotFound := by
  rw [addLabel, Ne, map_eq_error, Editor.outcome_eq_error, not_exists]
  refine stateBind_ne_error (ask_get_ne_notFound hl) fun i u _ => ?_
  refine stateBind_ne_error (fun _ => stateGet_ne_error) fun b₁ u _ => ?_
  split
  · exact stateThrow_bind_ne_error (by simp)
  · exact fun _ => stateModify_ne_error

theorem Live.remove_eq_ok (hb : b.Sound) (hl : b.Live h) :
    ∃ b' fillers, b.remove h = .ok (b', fillers) := by
  obtain ⟨pre, post, ho⟩ := hb.exists_split hl
  obtain ⟨i, hi⟩ := hl
  have hrun := hb.remove_eq hi ho
  exact ⟨_, _, Editor.outcome_eq_ok.mpr hrun⟩

theorem Live.accepts (hb : b.Sound) (hl : b.Live h) : b.Accepts h where
  get := hl
  offset := ⟨_, hl.offsetOf hb⟩
  replace := hl.replaceOperand_ne_notFound
  remove := hl.remove_eq_ok hb
  label := hl.addLabel_ne_notFound

theorem get_of_not_live (hn : ¬b.Live h) : b.get h = .error .instructionNotFound := by
  unfold Body.get
  split
  · rename_i i hi
    exact absurd ⟨i, by rw [Body.get, hi]⟩ hn
  · rfl

theorem rejects_of_not_live (hn : ¬b.Live h) : b.Rejects h := by
  have hget := get_of_not_live hn
  have hask : Editor.ask (·.get h) b = .error .instructionNotFound b :=
    Editor.ask_eq_error.mpr ⟨hget, rfl⟩
  have hfirst {α : Type} (next : Instruction → Editor α) :
      (Editor.ask (·.get h) >>= next : Editor α).outcome b = .error .instructionNotFound :=
    Editor.outcome_eq_error.mpr ⟨b, stateBind_eq_error.mpr (.inl hask)⟩
  exact
    { get := hget
      offset := by rw [offsetOf, hget]; rfl
      replace := fun operand => map_eq_error.mpr (hfirst _)
      remove := hfirst _
      label := fun name => map_eq_error.mpr (hfirst _) }

theorem accepts_iff_live (hb : b.Sound) : b.Accepts h ↔ b.Live h :=
  ⟨Accepts.get, Live.accepts hb⟩

theorem rejects_iff_not_live : b.Rejects h ↔ ¬b.Live h := by
  constructor
  · rintro hr ⟨i, hi⟩
    rw [hr.get] at hi
    cases hi
  · exact rejects_of_not_live

end LookUp

/-! ## 5. Issued handles -/

theorem Sound.handles_nodup {b : Body} (hb : b.Sound) : (b.lines.map (·.handle)).Nodup := by
  rw [lines, List.map_filterMap]
  refine List.Pairwise.filterMap _ (fun k k' hne h hk h' hk' hsame => hne ?_) hb.order_nodup
  obtain ⟨l, hl, rfl⟩ := Option.map_eq_some_iff.mp hk
  obtain ⟨l', hl', rfl⟩ := Option.map_eq_some_iff.mp hk'
  rw [← (line?_eq_some.mp hl).1, ← (line?_eq_some.mp hl').1, hsame]

/-- **A handle is good exactly as often as its slot counts back.**  Let a call on any body issue a
handle, and let any run follow.  The handle is found by every call that looks it up if the number
of removals from its slot since then is a multiple of 2 ^ 32, and by none otherwise.  While there
were none, it names the instruction for which it was issued, and only calls about its operand have
changed that.  No two instructions of the program have one handle.  A body that starts as a list of
instructions has issued their handles one by one, by `ofInstructions_eq`. -/
theorem issued_handle_valid_iff {b₀ b : Body} {e : Edit} {issued : List Handle} {h : Handle}
    (hb₀ : b₀.Reachable) (hrun : e.perform b₀ = .ok issued b) (hh : h ∈ issued)
    (rest : List Edit) :
    let b' := b.after rest
    let n := b.removals h.index rest
    (b'.Accepts h ↔ 2 ^ 32 ∣ n) ∧ (b'.Rejects h ↔ ¬2 ^ 32 ∣ n) ∧
    (n = 0 → ∃ operand, b'.get h = .ok { e.issuedFor with operand } ∧
      ((∀ e' ∈ rest, e'.operandOf? ≠ some h) → operand = e.issuedFor.operand)) ∧
    (0 < n → n < 2 ^ 32 → b'.Rejects h) ∧
    (b'.lines.map (·.handle)).Nodup := by
  intro b' n
  have hb : b.Anchored := (perform_keeps hb₀.anchored hrun).1
  have hi : b.get h = .ok e.issuedFor := (hb₀.anchored.sound.effect hrun).get_issued hh
  have hb' : b'.Sound := (after_keeps hb rest).1.sound
  have hvalid : b'.Live h ↔ 2 ^ 32 ∣ n := live_after_iff hb ⟨_, hi⟩ rest
  refine ⟨(accepts_iff_live hb').trans hvalid, rejects_iff_not_live.trans (not_congr hvalid),
    get_after hb hi, ?_, hb'.handles_nodup⟩
  intro hpos hlt
  refine rejects_of_not_live fun hl => ?_
  exact absurd (Nat.le_of_dvd hpos (hvalid.mp hl)) (Nat.not_le.mpr hlt)

/-- Removes an instruction, the filler in its slot, the filler of that, and so on. -/
def drain (h : Handle) : Nat → List Edit
  | 0 => []
  | m + 1 => .remove h :: drain h.next m

/-- A slot can be removed from as often as one likes. -/
theorem removals_drain {b : Body} (hb : b.Anchored) {h : Handle} (hl : b.Live h) (m : Nat) :
    b.removals h.index (drain h m) = m := by
  induction m generalizing b h with
  | zero => rfl
  | succ m ih =>
    obtain ⟨pre, post, ho⟩ := hb.sound.exists_split hl
    obtain ⟨i, hi⟩ := hl
    have hrun : (Edit.remove h).perform b = .ok _ (Editor.removed b h i.width pre post) :=
      hb.sound.remove_eq hi ho
    have hnext := ih (perform_keeps hb hrun).1 ⟨_, get_removed_next hi i.width⟩
    have hfirst : (Edit.remove h).removesFrom h.index b = true := by
      rw [Edit.removesFrom_of_ok hrun]
      exact beq_self_eq_true _
    rw [drain, removals, if_pos hfirst, Edit.after_of_ok hrun, Nat.add_comm]
    exact congrArg (· + 1) hnext

theorem issued_handle_valid_iff_pushedNop :
    let b := (({} : Body).push .nop).1
    (b.removals 0 [.remove ⟨0, 0⟩] = 1 ∧ (b.after [.remove ⟨0, 0⟩]).Rejects ⟨0, 0⟩) ∧
      ∃ rest, b.removals 0 rest = 2 ^ 32 ∧ (b.after rest).Accepts ⟨0, 0⟩ := by
  intro b
  have hrun : (Edit.push .nop).perform {} = .ok [⟨0, 0⟩] b := rfl
  have hissued : (⟨0, 0⟩ : Handle) ∈ [(⟨0, 0⟩ : Handle)] := List.mem_singleton_self _
  obtain ⟨-, -, -, hrejects, -⟩ :=
    issued_handle_valid_iff .empty hrun hissued [.remove ⟨0, 0⟩]
  have hone : b.removals 0 [.remove ⟨0, 0⟩] = 1 := by decide +kernel
  have hall : b.removals 0 (drain ⟨0, 0⟩ (2 ^ 32)) = 2 ^ 32 :=
    removals_drain (perform_keeps empty_anchored hrun).1 ⟨_, get_push {} .nop⟩ _
  obtain ⟨haccepts, -⟩ := issued_handle_valid_iff .empty hrun hissued (drain ⟨0, 0⟩ (2 ^ 32))
  refine ⟨⟨hone, hrejects (by rw [hone]; decide) (by rw [hone]; decide)⟩, _, hall, ?_⟩
  rw [hall] at haccepts
  exact haccepts.mpr (Nat.dvd_refl _)

end Body

end Dalvik
