/-
# Runs of edits

A run is any edits in any order, those that fail among them.  A body that a run reaches is anchored:
it is sound, and its labels and ranges hold live handles only.  What a run keeps is said in slots,
which is where the different ways in which labels, starts, ends and handlers follow a removed
instruction come together.

Main statement: `run_keeps_offsets`.
-/
import Dalvik.Proofs.Body.Offsets

namespace Dalvik

/-! ## 1. Runs -/

/-- A call of an editor. -/
inductive Edit where
  | push (i : Instruction)
  | remove (h : Handle)
  | replaceOperand (h : Handle) (operand : Operand)
  | retargetBranch (h : Handle) (label : String)
  | addLabel (name : String) (h : Handle)
  | addTry (t : TryRange)

namespace Edit

/-- The call, with the handles that it issues. -/
def perform : Edit → Editor (List Handle)
  | push i => do return [← Editor.push i]
  | remove h => Editor.remove h
  | replaceOperand h operand => do
    Editor.replaceOperand h operand
    return []
  | retargetBranch h label => do
    Editor.retargetBranch h label
    return []
  | addLabel name h => do
    Editor.addLabel name h
    return []
  | addTry t => do
    Editor.addTry t
    return []

/-- The body that a call leaves, whether it succeeds or not. -/
def after (e : Edit) (b : Body) : Body :=
  match e.perform b with
  | .ok _ b' => b'
  | .error _ b' => b'

theorem after_of_ok {e : Edit} {b b' : Body} {issued : List Handle}
    (hrun : e.perform b = .ok issued b') : e.after b = b' := by
  rw [after, hrun]

/-- The width of the instruction that a call pushes. -/
def pushedWidth : Edit → Nat
  | push i => i.width
  | _ => 0

/-- The instruction to which a call gives a new operand. -/
def operandOf? : Edit → Option Handle
  | replaceOperand h _ => some h
  | retargetBranch h _ => some h
  | _ => none

/-- The instruction for which a call issues its handles. -/
def issuedFor : Edit → Instruction
  | push i => i
  | _ => .nop

theorem pushedWidth_of_operandOf? {e : Edit} {h : Handle} (he : e.operandOf? = some h) :
    e.pushedWidth = 0 := by
  cases e with
  | push i => cases he
  | _ => rfl

/-- **A call that fails changes nothing.** -/
theorem careful_perform (e : Edit) : Editor.Careful e.perform := by
  have hdone {step : Editor Unit} (h : Editor.Careful step) :
      Editor.Careful (do step; return ([] : List Handle)) := by
    intro b b' e hs
    rcases stateBind_eq_error.mp hs with hs | ⟨_, _, -, hs⟩
    · exact h hs
    · exact absurd hs statePure_ne_error
  cases e with
  | push i =>
    have hpush : Editor.Total (Editor.push i) := fun _ _ _ => stateModifyGet_ne_error
    exact (hpush.bind fun h => Editor.total_pure [h]).careful
  | remove h => exact Editor.careful_remove h
  | replaceOperand h operand => exact hdone (Editor.careful_replaceOperand h operand)
  | retargetBranch h label => exact hdone (Editor.careful_retargetBranch h label)
  | addLabel name h => exact hdone (Editor.careful_addLabel name h)
  | addTry t => exact hdone (Editor.careful_addTry t)

theorem after_of_error {e : Edit} {b b' : Body} {cause : Error}
    (hrun : e.perform b = .error cause b') : e.after b = b := by
  rw [after, hrun, e.careful_perform hrun]

end Edit

namespace Body

/-- The body that a run of calls leaves. -/
def after (b : Body) (edits : List Edit) : Body :=
  edits.foldl (fun b e => e.after b) b

/-- A body of instructions is what pushing them leaves. -/
theorem ofInstructions_eq (code : List Instruction) :
    ofInstructions code = after {} (code.map .push) := by
  rw [ofInstructions, after, List.foldl_map]
  rfl

/-! ## 2. What a run keeps -/

/-- A body whose labels and ranges hold live handles only. -/
structure Anchored (b : Body) : Prop where
  sound : b.Sound
  labels_live : ∀ {name : String} {h : Handle}, (name, h) ∈ b.labels → b.Live h
  tries_live : ∀ {t : TryRange}, t ∈ b.tries → ∀ {h : Handle}, h ∈ t.handles → b.Live h

/-- The end of a slot. -/
def finish (b : Body) (k : Nat) : Nat :=
  b.before k + b.slotWidth k

/-- The types and the slots of the handlers of a range. -/
def handlerSlots (t : TryRange) : List (Option String × Nat) :=
  t.handlers.map fun c => (c.type?, c.target.index)

/-- A range that may have followed removed instructions: it starts and is handled in the same slots
as before, and ends at the same offset. -/
structure Follows (b b' : Body) (t t' : TryRange) : Prop where
  first : t'.first.index = t.first.index
  last : b'.finish t'.last.index = b.finish t.last.index
  handlers : handlerSlots t' = handlerSlots t

/-- What an edit keeps: slots do not move, labels stay on their slots, and ranges follow. -/
structure Keeps (b b' : Body) : Prop where
  size_le : b.slots.size ≤ b'.slots.size
  before_eq : ∀ {k : Nat}, k < b.slots.size → b'.before k = b.before k
  label : ∀ {name : String} {h : Handle}, b.label? name = some h →
    ∃ h', b'.label? name = some h' ∧ h'.index = h.index
  range : ∀ {k : Nat} {t : TryRange}, b.tries[k]? = some t →
    ∃ t', b'.tries[k]? = some t' ∧ Follows b b' t t'

theorem Keeps.refl (b : Body) : Keeps b b where
  size_le := Nat.le_refl _
  before_eq _ := rfl
  label h := ⟨_, h, rfl⟩
  range ht := ⟨_, ht, rfl, rfl, rfl⟩

theorem Keeps.trans {a b c : Body} (hab : Keeps a b) (hbc : Keeps b c) : Keeps a c where
  size_le := Nat.le_trans hab.size_le hbc.size_le
  before_eq hk := by
    rw [hbc.before_eq (Nat.lt_of_lt_of_le hk hab.size_le), hab.before_eq hk]
  label h := by
    obtain ⟨h₁, hl₁, hi₁⟩ := hab.label h
    obtain ⟨h₂, hl₂, hi₂⟩ := hbc.label hl₁
    exact ⟨h₂, hl₂, hi₂.trans hi₁⟩
  range ht := by
    obtain ⟨t₁, ht₁, hf₁⟩ := hab.range ht
    obtain ⟨t₂, ht₂, hf₂⟩ := hbc.range ht₁
    exact ⟨t₂, ht₂, hf₂.first.trans hf₁.first, hf₂.last.trans hf₁.last,
      hf₂.handlers.trans hf₁.handlers⟩

theorem mem_handles {t : TryRange} {h : Handle} :
    h ∈ t.handles ↔ h = t.first ∨ h = t.last ∨ ∃ c ∈ t.handlers, c.target = h := by
  simp [TryRange.handles]

section Ranges

variable {b : Body} {t : TryRange}

theorem Anchored.first_live (hb : b.Anchored) (ht : t ∈ b.tries) : b.Live t.first :=
  hb.tries_live ht (mem_handles.mpr (.inl rfl))

theorem Anchored.last_live (hb : b.Anchored) (ht : t ∈ b.tries) : b.Live t.last :=
  hb.tries_live ht (mem_handles.mpr (.inr (.inl rfl)))

theorem Anchored.target_live (hb : b.Anchored) (ht : t ∈ b.tries) {c : CatchHandler}
    (hc : c ∈ t.handlers) : b.Live c.target :=
  hb.tries_live ht (mem_handles.mpr (.inr (.inr ⟨c, hc, rfl⟩)))

end Ranges

theorem mem_labels_of_label? {b : Body} {name : String} {h : Handle} (hl : b.label? name = some h) :
    (name, h) ∈ b.labels := by
  obtain ⟨l₁, l₂, hlabels, -⟩ := List.lookup_eq_some_iff.mp hl
  rw [hlabels]
  simp

/-! ## 3. One edit -/

section Step

variable {b b' : Body}

/-- An edit that only touches slots leaves labels and ranges where they are. -/
theorem Keeps.of_slots (hb : b.Anchored) (hl : b'.labels = b.labels) (ht : b'.tries = b.tries)
    (hsize : b.slots.size ≤ b'.slots.size)
    (hbefore : ∀ {k : Nat}, k < b.slots.size → b'.before k = b.before k)
    (hwidth : ∀ {k : Nat}, k < b.slots.size → b'.slotWidth k = b.slotWidth k) : Keeps b b' where
  size_le := hsize
  before_eq := hbefore
  label {name h} hlab := ⟨h, by rwa [label?, hl], rfl⟩
  range {k t} hk := by
    refine ⟨t, by rwa [ht], rfl, ?_, rfl⟩
    have hlast := index_lt (hb.last_live (List.mem_of_getElem? hk))
    rw [finish, finish, hbefore hlast, hwidth hlast]

theorem Anchored.of_slots (hb : b.Anchored) (hl : b'.labels = b.labels) (ht : b'.tries = b.tries)
    (hs : b'.Sound) (hlive : ∀ {h : Handle}, b.Live h → b'.Live h) : b'.Anchored where
  sound := hs
  labels_live hm := hlive (hb.labels_live (hl ▸ hm))
  tries_live hm _ hh := hlive (hb.tries_live (ht ▸ hm) hh)

theorem push_keeps (hb : b.Anchored) (i : Instruction) :
    (b.push i).1.Anchored ∧ Keeps b (b.push i).1 := by
  have hs {k : Nat} (hk : k < b.slots.size) := push_slots_of_lt b i hk
  constructor
  · exact hb.of_slots rfl rfl (hb.sound.push i) fun hl => (live_congr (hs (index_lt hl))).mpr hl
  · exact .of_slots hb rfl rfl (by simp [push]) (before_push hb.sound i)
      fun hk => slotWidth_congr (hs hk)

theorem replaced_keeps (hb : b.Anchored) {h : Handle} {i j : Instruction} (hi : b.get h = .ok i)
    (hw : j.width = i.width) :
    (Editor.replaced b h.index j).Anchored ∧ Keeps b (Editor.replaced b h.index j) := by
  constructor
  · exact hb.of_slots rfl rfl (hb.sound.replaced _ _) (live_replaced hi)
  · exact .of_slots hb rfl rfl (by simp [Editor.replaced]) (fun _ => before_replaced hi hw _)
      fun _ => slotWidth_replaced hi hw _

/-! ### Removing -/

variable {h : Handle} {i : Instruction} {pre post : List Nat}

theorem moved_next_index (h h' : Handle) : (moved h h.next h').index = h'.index := by
  unfold moved
  split
  · rename_i he
    rw [he]
    rfl
  · rfl

theorem label?_removed (b : Body) (h : Handle) (width : Nat) (pre post : List Nat)
    (name : String) :
    (Editor.removed b h width pre post).label? name = (b.label? name).map (moved h h.next) := by
  rw [label?, label?, Editor.removed]
  induction b.labels with
  | nil => rfl
  | cons label labels ih =>
    obtain ⟨other, target⟩ := label
    rw [List.map_cons, List.lookup_cons, List.lookup_cons, ih]
    cases name == other <;> rfl

theorem handlerSlots_movedTry (h last : Handle) (t : TryRange) :
    handlerSlots (movedTry h h.next last t) = handlerSlots t := by
  rw [handlerSlots, handlerSlots, movedTry, List.map_map]
  refine List.map_congr_left fun c _ => ?_
  simp only [Function.comp_apply, moved_next_index]

/-- The end of a range stays where it was, also if its last instruction is removed. -/
theorem finish_moved (hb : b.Sound) (hi : b.get h = .ok i)
    (ho : b.order.toList = pre ++ h.index :: post) {h' : Handle} (hl : b.Live h') :
    (Editor.removed b h i.width pre post).finish
      (moved h (Editor.lastFiller h b.slots.size i.width) h').index = b.finish h'.index := by
  unfold moved
  split
  · rename_i he
    rw [he]
    exact end_lastFiller hb hi ho
  · rename_i hne
    have hindex : h'.index ≠ h.index := fun he => hne (hl.eq_of_index ⟨i, hi⟩ he)
    rw [finish, finish, before_removed hb hi ho (index_lt hl),
      slotWidth_removed_of_ne _ (index_lt hl) hindex]

theorem removed_keeps (hb : b.Anchored) (hi : b.get h = .ok i)
    (ho : b.order.toList = pre ++ h.index :: post) :
    (Editor.removed b h i.width pre post).Anchored ∧
      Keeps b (Editor.removed b h i.width pre post) := by
  have hnext : (Editor.removed b h i.width pre post).Live h.next := ⟨_, get_removed_next hi _⟩
  have hlast : (Editor.removed b h i.width pre post).Live
      (Editor.lastFiller h b.slots.size i.width) := live_lastFiller hi
  have hmoved {new h' : Handle} (hnew : (Editor.removed b h i.width pre post).Live new)
      (hl : b.Live h') : (Editor.removed b h i.width pre post).Live (moved h new h') :=
    live_moved ⟨i, hi⟩ hl hnew
  constructor
  · refine ⟨hb.sound.removed ho, ?_, ?_⟩
    · intro name h' hm
      obtain ⟨⟨_, target⟩, hlabel, heq⟩ := List.mem_map.mp hm
      obtain ⟨rfl, rfl⟩ := Prod.mk.inj heq
      exact hmoved hnext (hb.labels_live hlabel)
    · intro t hm h' hh
      obtain ⟨t, ht, rfl⟩ := List.mem_map.mp hm
      obtain rfl | rfl | ⟨c, hc, rfl⟩ := mem_handles.mp hh
      · exact hmoved hnext (hb.first_live ht)
      · exact hmoved hlast (hb.last_live ht)
      · obtain ⟨c, hmem, rfl⟩ := List.mem_map.mp hc
        exact hmoved hnext (hb.target_live ht hmem)
  · refine ⟨?_, before_removed hb.sound hi ho, ?_, ?_⟩
    · rw [removed_size]
      omega
    · intro name h' hl
      exact ⟨_, by rw [label?_removed, hl]; rfl, moved_next_index h h'⟩
    · intro k t hk
      have htries : (Editor.removed b h i.width pre post).tries[k]? =
          some (movedTry h h.next (Editor.lastFiller h b.slots.size i.width) t) := by
        rw [Editor.removed, List.getElem?_map, hk]
        rfl
      have hl := hb.last_live (List.mem_of_getElem? hk)
      exact ⟨_, htries, moved_next_index _ _, finish_moved hb.sound hi ho hl,
        handlerSlots_movedTry _ _ _⟩

/-! ### Labels and ranges -/

theorem addLabel_keeps (hb : b.Anchored) {name : String} (hl : b.Live h)
    (hn : b.label? name = none) :
    ({ b with labels := b.labels ++ [(name, h)] } : Body).Anchored ∧
      Keeps b { b with labels := b.labels ++ [(name, h)] } := by
  constructor
  · refine ⟨⟨hb.sound.order_perm, hb.sound.filled⟩, ?_, hb.tries_live⟩
    intro other h' hm
    rcases List.mem_append.mp hm with hm | hm
    · exact hb.labels_live hm
    · obtain ⟨rfl, rfl⟩ := Prod.mk.inj (List.mem_singleton.mp hm)
      exact hl
  · refine ⟨Nat.le_refl _, fun _ => rfl, ?_, fun ht => ⟨_, ht, rfl, rfl, rfl⟩⟩
    intro other h' hlabel
    refine ⟨h', ?_, rfl⟩
    rw [label?] at hlabel ⊢
    rw [List.lookup_append, hlabel]
    rfl

theorem addTry_keeps (hb : b.Anchored) {t : TryRange} (hl : ∀ h ∈ t.handles, b.Live h) :
    ({ b with tries := b.tries ++ [t] } : Body).Anchored ∧
      Keeps b { b with tries := b.tries ++ [t] } := by
  constructor
  · refine ⟨⟨hb.sound.order_perm, hb.sound.filled⟩, hb.labels_live, ?_⟩
    intro t' hm h' hh
    rcases List.mem_append.mp hm with hm | hm
    · exact hb.tries_live hm hh
    · obtain rfl := List.mem_singleton.mp hm
      exact hl h' hh
  · refine ⟨Nat.le_refl _, fun _ => rfl, fun hlab => ⟨_, hlab, rfl⟩, ?_⟩
    intro k t' hk
    refine ⟨t', ?_, rfl, rfl, rfl⟩
    rw [List.getElem?_append_left (List.getElem?_eq_some_iff.mp hk).1]
    exact hk

/-! ### Any call -/

/-- **What a call does if it succeeds**: the handles that it issues, and the body that it leaves.
Both ways of giving a new operand come to one case. -/
inductive Effect (b : Body) : Edit → List Handle → Body → Prop
  | pushed (i : Instruction) : Effect b (.push i) [(b.push i).2] (b.push i).1
  | removed {h : Handle} {i : Instruction} {pre post : List Nat} (hi : b.get h = .ok i)
      (ho : b.order.toList = pre ++ h.index :: post) :
      Effect b (.remove h) (h.next :: Editor.fillerHandles b.slots.size (i.width - 1))
        (Editor.removed b h i.width pre post)
  | replaced {e : Edit} {h : Handle} {i : Instruction} {operand : Operand}
      (he : e.operandOf? = some h) (hi : b.get h = .ok i) (hc : i.checkOperand operand = .ok ())
      (hw : ({ i with operand } : Instruction).width = i.width) :
      Effect b e [] (Editor.replaced b h.index { i with operand })
  | labelled {name : String} {h : Handle} (hl : b.Live h) (hn : b.label? name = none) :
      Effect b (.addLabel name h) [] { b with labels := b.labels ++ [(name, h)] }
  | guarded {t : TryRange} (hl : ∀ h ∈ t.handles, b.Live h) :
      Effect b (.addTry t) [] { b with tries := b.tries ++ [t] }

theorem Sound.effect (hb : b.Sound) {e : Edit} {issued : List Handle}
    (hrun : e.perform b = .ok issued b') : Effect b e issued b' := by
  cases e with
  | push i =>
    simp only [Edit.perform, stateBind_eq_ok, statePure_eq_ok] at hrun
    obtain ⟨h, _, hpush, rfl, rfl⟩ := hrun
    obtain ⟨rfl, rfl⟩ := Prod.mk.inj (stateModifyGet_eq_ok.mp hpush)
    exact .pushed i
  | remove h =>
    cases hi : b.get h with
    | error cause =>
      rw [Edit.perform, Editor.remove_eq_error hi] at hrun
      cases hrun
    | ok i =>
      obtain ⟨pre, post, ho⟩ := hb.exists_split ⟨i, hi⟩
      have hrun' := hb.remove_eq hi ho
      rw [Edit.perform, hrun'] at hrun
      obtain ⟨rfl, rfl⟩ : _ = issued ∧ _ = b' := by simpa using hrun
      exact .removed hi ho
  | replaceOperand h operand =>
    simp only [Edit.perform, stateBind_eq_ok, statePure_eq_ok] at hrun
    obtain ⟨_, _, hr, rfl, rfl⟩ := hrun
    obtain ⟨i, hi, hc, hw, rfl⟩ := Editor.replaceOperand_eq_ok.mp hr
    exact .replaced rfl hi hc hw
  | retargetBranch h label =>
    simp only [Edit.perform, stateBind_eq_ok, statePure_eq_ok] at hrun
    obtain ⟨_, _, hr, rfl, rfl⟩ := hrun
    obtain ⟨_, d, target, source, -, -, -, -, -, hr⟩ := Editor.retargetBranch_eq_ok.mp hr
    obtain ⟨i, hi, hc, hw, rfl⟩ := Editor.replaceOperand_eq_ok.mp hr
    exact .replaced rfl hi hc hw
  | addLabel name h =>
    simp only [Edit.perform, stateBind_eq_ok, statePure_eq_ok] at hrun
    obtain ⟨_, _, hr, rfl, rfl⟩ := hrun
    obtain ⟨hl, hn, rfl⟩ := Editor.addLabel_eq_ok.mp hr
    exact .labelled hl hn
  | addTry t =>
    simp only [Edit.perform, stateBind_eq_ok, statePure_eq_ok] at hrun
    obtain ⟨_, _, hr, rfl, rfl⟩ := hrun
    obtain ⟨hl, -, -, rfl⟩ := Editor.addTry_eq_ok.mp hr
    exact .guarded hl

theorem Effect.get_issued {e : Edit} {issued : List Handle} (he : Effect b e issued b')
    {h : Handle} (hh : h ∈ issued) : b'.get h = .ok e.issuedFor := by
  cases he with
  | pushed i =>
    obtain rfl := List.mem_singleton.mp hh
    exact get_push b i
  | removed hi ho =>
    rcases List.mem_cons.mp hh with rfl | hh
    · exact get_removed_next hi _
    · obtain ⟨k, hk, rfl⟩ := List.mem_map.mp hh
      exact get_removed_filler hk
  | replaced he hi hc hw => cases hh
  | labelled hl hn => cases hh
  | guarded hl => cases hh

/-- **What one edit keeps.** -/
theorem perform_keeps (hb : b.Anchored) {e : Edit} {issued : List Handle}
    (hrun : e.perform b = .ok issued b') :
    b'.Anchored ∧ Keeps b b' ∧ (∀ h ∈ issued, b'.Live h) ∧
      b'.codeUnits = b.codeUnits + e.pushedWidth := by
  have heffect := hb.sound.effect hrun
  have hissued : ∀ h ∈ issued, b'.Live h := fun h hh => ⟨_, heffect.get_issued hh⟩
  cases heffect with
  | pushed i =>
    obtain ⟨ha, hk⟩ := push_keeps hb i
    exact ⟨ha, hk, hissued, codeUnits_push hb.sound i⟩
  | removed hi ho =>
    obtain ⟨ha, hk⟩ := removed_keeps hb hi ho
    exact ⟨ha, hk, hissued, codeUnits_removed hb.sound hi ho⟩
  | replaced he hi hc hw =>
    obtain ⟨ha, hk⟩ := replaced_keeps hb hi hw
    refine ⟨ha, hk, hissued, ?_⟩
    rw [codeUnits_replaced hb.sound hi hw, Edit.pushedWidth_of_operandOf? he, Nat.add_zero]
  | labelled hl hn =>
    obtain ⟨ha, hk⟩ := addLabel_keeps hb hl hn
    exact ⟨ha, hk, hissued, rfl⟩
  | guarded hl =>
    obtain ⟨ha, hk⟩ := addTry_keeps hb hl
    exact ⟨ha, hk, hissued, rfl⟩

end Step

/-! ## 4. All runs -/

theorem empty_anchored : ({} : Body).Anchored where
  sound := ⟨by simp, by simp⟩
  labels_live h := by simp at h
  tries_live h := by simp at h

theorem after_keeps_one {b : Body} (hb : b.Anchored) (e : Edit) :
    (e.after b).Anchored ∧ Keeps b (e.after b) ∧
      (e.after b).codeUnits = b.codeUnits + e.pushedWidth := by
  cases hrun : e.perform b with
  | ok issued b' =>
    obtain ⟨ha, hk, -, hc⟩ := perform_keeps hb hrun
    rw [Edit.after_of_ok hrun]
    exact ⟨ha, hk, hc⟩
  | error cause b' =>
    rw [Edit.after_of_error hrun]
    refine ⟨hb, .refl b, ?_⟩
    -- only a push has a width, and a push does not fail
    cases e with
    | push i => cases hrun
    | _ => rfl

/-- **What a run keeps.** -/
theorem after_keeps {b : Body} (hb : b.Anchored) (edits : List Edit) :
    (b.after edits).Anchored ∧ Keeps b (b.after edits) ∧
      (b.after edits).codeUnits = b.codeUnits + (edits.map Edit.pushedWidth).sum := by
  induction edits generalizing b with
  | nil => exact ⟨hb, .refl b, rfl⟩
  | cons e edits ih =>
    obtain ⟨ha, hk, hc⟩ := after_keeps_one hb e
    obtain ⟨ha', hk', hc'⟩ := ih ha
    refine ⟨ha', hk.trans hk', ?_⟩
    rw [List.map_cons, List.sum_cons, ← Nat.add_assoc, ← hc]
    exact hc'

/-! ## 5. Offsets -/

section Offsets

variable {b b' : Body}

theorem Live.offsetOf (hb : b.Sound) {h : Handle} (hl : b.Live h) :
    b.offsetOf h = .ok (b.before h.index) :=
  (offsetOf_eq_ok hb).mpr ⟨hl, rfl⟩

theorem Live.before_lt_finish {h : Handle} (hl : b.Live h) :
    b.before h.index < b.finish h.index := by
  obtain ⟨i, hi⟩ := hl
  have hpos := i.width_pos
  rw [finish, slotWidth_of_get hi]
  omega

theorem Anchored.labelOffset (hb : b.Anchored) {name : String} {h : Handle}
    (hl : b.label? name = some h) : b.labelOffset name = .ok (b.before h.index) := by
  rw [Body.labelOffset, hl]
  exact (hb.labels_live (mem_labels_of_label? hl)).offsetOf hb.sound

theorem Anchored.tryBounds (hb : b.Anchored) {t : TryRange} (ht : t ∈ b.tries) :
    b.tryBounds t = .ok (b.before t.first.index, b.finish t.last.index - 1) := by
  have hfirst := hb.first_live ht
  obtain ⟨i, hi⟩ := hb.last_live ht
  refine bind_eq_ok.mpr ⟨_, hfirst.offsetOf hb.sound, bind_eq_ok.mpr
    ⟨_, Live.offsetOf hb.sound ⟨i, hi⟩, bind_eq_ok.mpr ⟨i, hi, ?_⟩⟩⟩
  rw [finish, slotWidth_of_get hi]
  rfl

theorem forall₂_of_handlerSlots {t t' : TryRange} (h : handlerSlots t' = handlerSlots t) :
    List.Forall₂ (fun c c' => c ∈ t.handlers ∧ c' ∈ t'.handlers ∧ c'.type? = c.type? ∧
      c'.target.index = c.target.index) t.handlers t'.handlers := by
  have hlength : t.handlers.length = t'.handlers.length := by
    simpa [handlerSlots] using (congrArg List.length h).symm
  refine List.forall₂_iff_get.mpr ⟨hlength, fun n hn hn' => ?_⟩
  have hslot := congrArg (·[n]?) h
  simp only [handlerSlots, List.getElem?_map, List.getElem?_eq_getElem hn,
    List.getElem?_eq_getElem hn', Option.map_some, Option.some.injEq, Prod.mk.injEq] at hslot
  exact ⟨List.get_mem _ _, List.get_mem _ _, hslot.1, hslot.2⟩

/-- **No edit moves code.**  Whatever run leads to a body and whatever run goes on from it: a handle
that is live in both bodies has the same offset in both; a label keeps its offset; a range keeps its
place in the list, its bounds, and the types and the offsets of its handlers.  The code is as wide
as all instructions that were ever pushed; handles are live when they are issued; and a call that
fails changes nothing. -/
theorem run_keeps_offsets (start rest : List Edit) :
    let b : Body := Body.after {} start
    let b' : Body := b.after rest
    (∀ h offset, b.offsetOf h = .ok offset → b'.Live h → b'.offsetOf h = .ok offset) ∧
    (∀ name h, b.label? name = some h →
      ∃ offset, b.labelOffset name = .ok offset ∧ b'.labelOffset name = .ok offset) ∧
    (∀ (k : Nat) t, b.tries[k]? = some t → ∃ t' bounds, b'.tries[k]? = some t' ∧
      b.tryBounds t = .ok bounds ∧ b'.tryBounds t' = .ok bounds ∧
      List.Forall₂ (fun c c' => c'.type? = c.type? ∧
        ∃ offset, b.offsetOf c.target = .ok offset ∧ b'.offsetOf c'.target = .ok offset)
        t.handlers t'.handlers) ∧
    b'.codeUnits = ((start ++ rest).map Edit.pushedWidth).sum ∧
    (∀ (e : Edit) issued b₁, e.perform b = .ok issued b₁ →
      ∀ h ∈ issued, ∃ offset, b₁.offsetOf h = .ok offset) ∧
    ∀ (e : Edit) cause b₁, e.perform b = .error cause b₁ → b₁ = b := by
  intro b b'
  obtain ⟨hb, -, hc⟩ := after_keeps empty_anchored start
  obtain ⟨hb', hk, hc'⟩ := after_keeps hb rest
  refine ⟨?_, ?_, ?_, ?_, ?_, ?_⟩
  · intro h offset ho hl
    obtain ⟨hl₀, rfl⟩ := (offsetOf_eq_ok hb.sound).mp ho
    rw [← hk.before_eq (index_lt hl₀)]
    exact hl.offsetOf hb'.sound
  · intro name h hl
    obtain ⟨h', hl', hindex⟩ := hk.label hl
    refine ⟨_, hb.labelOffset hl, ?_⟩
    rw [← hk.before_eq (index_lt (hb.labels_live (mem_labels_of_label? hl))), ← hindex]
    exact hb'.labelOffset hl'
  · intro k t ht
    obtain ⟨t', ht', hf⟩ := hk.range ht
    have hm := List.mem_of_getElem? ht
    have hm' := List.mem_of_getElem? ht'
    have hfirst := index_lt (hb.tries_live hm (mem_handles.mpr (.inl rfl)))
    refine ⟨t', _, ht', hb.tryBounds hm, ?_, ?_⟩
    · rw [← hk.before_eq hfirst, ← hf.first, ← hf.last]
      exact hb'.tryBounds hm'
    · refine (forall₂_of_handlerSlots hf.handlers).imp fun c c' hcc => ?_
      obtain ⟨hmem, hmem', htype, hindex⟩ := hcc
      have hlive := hb.tries_live hm (mem_handles.mpr (.inr (.inr ⟨c, hmem, rfl⟩)))
      have hlive' := hb'.tries_live hm' (mem_handles.mpr (.inr (.inr ⟨c', hmem', rfl⟩)))
      refine ⟨htype, _, hlive.offsetOf hb.sound, ?_⟩
      rw [← hk.before_eq (index_lt hlive), ← hindex]
      exact hlive'.offsetOf hb'.sound
  · have hempty : ({} : Body).codeUnits = 0 := rfl
    rw [List.map_append, List.sum_append, hc', hc, hempty, Nat.zero_add]
  · intro e issued b₁ hrun h hm
    obtain ⟨ha, -, hl, -⟩ := perform_keeps hb hrun
    exact ⟨_, (hl h hm).offsetOf ha.sound⟩
  · intro e cause b₁ hrun
    exact e.careful_perform hrun

end Offsets

end Body

end Dalvik
