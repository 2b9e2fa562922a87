/-
# Branches that keep to their label

A branch can be pointed at a label exactly if the distance fits the format of the branch.  The
distance is then a number in the instruction, while both ends are looked up again whenever they are
asked for.  The branch goes on leading to the label because neither end moves: not the branch, which
stays in its slot, and not the label, which stays on its slot when the instruction there is removed,
and when the filler there is removed, and so on.

* `Body.retargetBranch_iff`: when a branch is pointed at a label, and what that leaves;
* `Hits`, `Edit.Spares`, `Spared`: a branch that leads to a label, and calls that leave it alone;
* `Hits.after_one`, `Hits.after`: the step and the run;
* `retargeted_branch_keeps_hitting`: the main statement.
-/
import Dalvik.Proofs.Body.Generations
import Dalvik.Proofs.Instruction.Unpacking

namespace Dalvik

/-! ## 1. The reach of a branch -/

namespace Instruction

theorem checkOperand_branch_eq_ok {i : Instruction} {d : Int32} :
    i.checkOperand (.branch d) = .ok () ↔ i.fits (.branch d) = true := by
  have hcheck : i.checkOperand (.branch d) =
      if !i.fits (.branch d) then .error (.invalidOperand (i.misfit (.branch d))) else .ok () := rfl
  rw [hcheck]
  cases i.fits (.branch d) <;> simp

theorem width_of_branch {i : Instruction} {d : Int32} (hd : i.operand = .branch d) (d' : Int32) :
    ({ i with operand := .branch d' } : Instruction).width = i.width := by
  rw [width, width, hd]

end Instruction

theorem Format.deltaBits?_le {format : Format} {bits : Nat} (h : format.deltaBits? = some bits) :
    bits ≤ 32 := by
  unfold deltaBits? at h
  split at h <;> simp at h <;> omega

namespace Body

variable {b b' : Body} {h : Handle} {label : String}

/-! ## 2. Pointing a branch at a label -/

theorem labelOffset_eq_ok {offset : Nat} :
    b.labelOffset label = .ok offset ↔
      ∃ t, b.label? label = some t ∧ b.offsetOf t = .ok offset := by
  unfold labelOffset
  cases b.label? label <;> simp

/-- **A branch is pointed at a label exactly if the distance fits its format.** -/
theorem retargetBranch_iff :
    b.retargetBranch h label = .ok b' ↔
      ∃ i d source target bits, b.get h = .ok i ∧ i.operand = .branch d ∧
        b.offsetOf h = .ok source ∧ b.labelOffset label = .ok target ∧
        i.format.deltaBits? = some bits ∧ fitsSigned bits ((target : Int) - source) = true ∧
        Editor.replaced b h.index
          { i with operand := .branch (Int32.ofInt ((target : Int) - source)) } = b' := by
  have hrun : b.retargetBranch h label = .ok b' ↔
      Editor.retargetBranch h label b = .ok () b' := by
    rw [retargetBranch, map_eq_ok]
    constructor
    · rintro ⟨⟨b₁, _⟩, hout, rfl⟩
      exact Editor.outcome_eq_ok.mp hout
    · intro hrun
      exact ⟨(b', ()), Editor.outcome_eq_ok.mpr hrun, rfl⟩
  rw [hrun, Editor.retargetBranch_eq_ok]
  constructor
  · rintro ⟨i, d, target, source, hi, hd, ht, hs, hfits, hreplace⟩
    obtain ⟨j, hj, hcheck, -, rfl⟩ := Editor.replaceOperand_eq_ok.mp hreplace
    obtain rfl := Except.ok.inj (hi.symm.trans hj)
    obtain ⟨bits, hbits, hreach⟩ := Instruction.fits_branch_iff.mp
      (Instruction.checkOperand_branch_eq_ok.mp hcheck)
    rw [toInt_ofInt32 hfits] at hreach
    exact ⟨i, d, source, target, bits, hi, hd, hs, ht, hbits, hreach, rfl⟩
  · rintro ⟨i, d, source, target, bits, hi, hd, hs, ht, hbits, hreach, rfl⟩
    have hfits := fitsSigned_mono (Format.deltaBits?_le hbits) hreach
    have hoperand : i.fits (.branch (Int32.ofInt ((target : Int) - source))) = true := by
      refine Instruction.fits_branch_iff.mpr ⟨bits, hbits, ?_⟩
      rwa [toInt_ofInt32 hfits]
    refine ⟨i, d, target, source, hi, hd, ht, hs, hfits, ?_⟩
    exact Editor.replaceOperand_eq_ok.mpr
      ⟨i, hi, Instruction.checkOperand_branch_eq_ok.mpr hoperand, Instruction.width_of_branch hd _,
        rfl⟩

/-! ## 3. Branches that lead to a label -/

/-- The offset of a branch and its distance together are the offset of a label. -/
def Hits (b : Body) (h : Handle) (label : String) : Prop :=
  ∃ i delta source target, b.get h = .ok i ∧ i.operand = .branch delta ∧
    b.offsetOf h = .ok source ∧ b.labelOffset label = .ok target ∧
      (source : Int) + delta.toInt = target

/-- A label stays at its offset. -/
theorem Keeps.labelOffset (hb : b.Anchored) (hb' : b'.Anchored) (hk : Keeps b b') {offset : Nat}
    (ho : b.labelOffset label = .ok offset) : b'.labelOffset label = .ok offset := by
  obtain ⟨t, hlabel, ht⟩ := labelOffset_eq_ok.mp ho
  obtain ⟨hl, rfl⟩ := (offsetOf_eq_ok hb.sound).mp ht
  obtain ⟨t', hlabel', hindex⟩ := hk.label hlabel
  rw [hb'.labelOffset hlabel', hindex, hk.before_eq (index_lt hl)]

/-- An instruction that is still there stays at its offset. -/
theorem Keeps.offsetOf (hb : b.Anchored) (hb' : b'.Anchored) (hk : Keeps b b') {offset : Nat}
    (ho : b.offsetOf h = .ok offset) (hl : b'.Live h) : b'.offsetOf h = .ok offset := by
  obtain ⟨hl₀, rfl⟩ := (offsetOf_eq_ok hb.sound).mp ho
  rw [hl.offsetOf hb'.sound, hk.before_eq (index_lt hl₀)]

/-- A branch that has been pointed at a label leads to it. -/
theorem Hits.of_retargetBranch (hb : b.Anchored) (hr : b.retargetBranch h label = .ok b') :
    b'.Anchored ∧ b'.Hits h label := by
  obtain ⟨i, d, source, target, bits, hi, hd, hs, ht, hbits, hreach, rfl⟩ :=
    retargetBranch_iff.mp hr
  obtain ⟨ha, hk⟩ := replaced_keeps hb hi (Instruction.width_of_branch hd _)
  have hget := get_replaced hi { i with operand := .branch (Int32.ofInt ((target : Int) - source)) }
  refine ⟨ha, _, _, source, target, hget, rfl, hk.offsetOf hb ha hs ⟨_, hget⟩,
    hk.labelOffset hb ha ht, ?_⟩
  rw [toInt_ofInt32 (fitsSigned_mono (Format.deltaBits?_le hbits) hreach)]
  omega

end Body

/-! ## 4. Runs that leave a branch alone -/

/-- A call that neither removes an instruction nor gives it another operand. -/
structure Edit.Spares (e : Edit) (h : Handle) (b : Body) : Prop where
  stays : e = .remove h → e.succeeds b = false
  operand : e.operandOf? = some h → (e.after b).get h = b.get h

namespace Body

/-- No call of a run removes an instruction or gives it another operand. -/
def Spared (h : Handle) : Body → List Edit → Prop
  | _, [] => True
  | b, e :: rest => e.Spares h b ∧ Spared h (e.after b) rest

variable {b b' : Body} {h : Handle} {label : String} {e : Edit}

/-- What is removed from the slot of a live handle is the instruction of that handle. -/
theorem removesFrom_of_spares {i : Instruction} (hi : b.get h = .ok i) (hs : e.Spares h b) :
    e.removesFrom h.index b = false := by
  cases e with
  | remove h' =>
    cases hrun : (Edit.remove h').perform b with
    | error cause b' => exact Edit.removesFrom_of_error hrun
    | ok issued b' =>
      rw [Edit.removesFrom_of_ok hrun, beq_eq_false_iff_ne]
      intro hindex
      cases hi' : b.get h' with
      | error cause =>
        rw [Edit.perform, Editor.remove_eq_error hi'] at hrun
        cases hrun
      | ok i' =>
        obtain rfl := Live.eq_of_index ⟨i', hi'⟩ ⟨i, hi⟩ (Option.some.inj hindex)
        have hfails := hs.stays rfl
        rw [Edit.succeeds, hrun] at hfails
        cases hfails
  | _ => rfl

theorem get_of_spares (hb : b.Sound) {i : Instruction} (hi : b.get h = .ok i)
    (hs : e.Spares h b) : (e.after b).get h = .ok i := by
  by_cases hop : e.operandOf? = some h
  · rw [hs.operand hop]
    exact hi
  · obtain ⟨operand, hget, hsame⟩ := get_after_one hb hi (removesFrom_of_spares hi hs)
    rw [hget, hsame hop]

/-- **The step**: any other call leaves a branch leading to its label. -/
theorem Hits.after_one (hb : b.Anchored) (hh : b.Hits h label) (hs : e.Spares h b) :
    (e.after b).Hits h label := by
  obtain ⟨i, delta, source, target, hi, hd, hsource, htarget, hsum⟩ := hh
  obtain ⟨ha, hk, -⟩ := after_keeps_one hb e
  have hget := get_of_spares hb.sound hi hs
  exact ⟨i, delta, source, target, hget, hd, hk.offsetOf hb ha hsource ⟨i, hget⟩,
    hk.labelOffset hb ha htarget, hsum⟩

/-- **The run.**  By induction on the calls. -/
theorem Hits.after (hb : b.Anchored) (hh : b.Hits h label) {rest : List Edit}
    (hs : b.Spared h rest) : (b.after rest).Hits h label := by
  induction rest generalizing b with
  | nil => exact hh
  | cons e rest ih =>
    obtain ⟨hfirst, hrest⟩ := hs
    exact ih (after_keeps_one hb e).1 (hh.after_one hb hfirst) hrest

/-- **A branch keeps to its label.**  In any body that calls lead to, a branch can be pointed at a
label exactly if it is live, is a branch, the label exists, and the distance fits the format of the
branch.  Then, whatever run follows that neither removes the branch nor gives it another operand,
its offset and its distance together are the offset of the label; the instruction under the label
may be removed, and so may the fillers that the label moves to. -/
theorem retargeted_branch_keeps_hitting {b : Body} (hb : b.Reachable) (h : Handle)
    (label : String) :
    ((∃ b', b.retargetBranch h label = .ok b') ↔
      ∃ i d t source target bits, b.get h = .ok i ∧ i.operand = .branch d ∧
        b.label? label = some t ∧ b.offsetOf h = .ok source ∧ b.labelOffset label = .ok target ∧
        i.format.deltaBits? = some bits ∧ fitsSigned bits ((target : Int) - source) = true) ∧
    ∀ b', b.retargetBranch h label = .ok b' → ∀ rest, b'.Spared h rest →
      (b'.after rest).Hits h label := by
  constructor
  · constructor
    · rintro ⟨b', hr⟩
      obtain ⟨i, d, source, target, bits, hi, hd, hs, ht, hbits, hreach, -⟩ :=
        retargetBranch_iff.mp hr
      obtain ⟨t, hlabel, -⟩ := labelOffset_eq_ok.mp ht
      exact ⟨i, d, t, source, target, bits, hi, hd, hlabel, hs, ht, hbits, hreach⟩
    · rintro ⟨i, d, t, source, target, bits, hi, hd, -, hs, ht, hbits, hreach⟩
      exact ⟨_, retargetBranch_iff.mpr
        ⟨i, d, source, target, bits, hi, hd, hs, ht, hbits, hreach, rfl⟩⟩
  · intro b' hr rest hs
    obtain ⟨ha, hhits⟩ := Hits.of_retargetBranch hb.anchored hr
    exact hhits.after ha hs

/-- A jump of two code units before a wide constant, which is labelled, and the end of a method; the
jump is pointed at the label. -/
def labelledConstant : Body :=
  let jump : Instruction := { opcode := 0x29, format := .f20t, operand := .branch 7 }
  let constant : Instruction :=
    { opcode := 0x18, format := .f51l, registers := [0], operand := .literal 7 }
  let leave : Instruction := { opcode := 0x0e, format := .f10x }
  (ofInstructions [jump, constant, leave]).after [.addLabel "here" ⟨1, 0⟩]

theorem retargeted_branch_keeps_hitting_labelledConstant :
    let b' := labelledConstant.after [.retargetBranch ⟨0, 0⟩ "here"]
    let rest : List Edit := [.remove ⟨1, 0⟩, .remove ⟨1, 1⟩, .retargetBranch ⟨0, 0⟩ "here"]
    labelledConstant.retargetBranch ⟨0, 0⟩ "here" = .ok b' ∧
      (b'.after rest).label? "here" = some ⟨1, 2⟩ ∧ (b'.after rest).Hits ⟨0, 0⟩ "here" := by
  intro b' rest
  have hreachable : labelledConstant.Reachable := (Reachable.ofInstructions _).after _
  have hrun : labelledConstant.retargetBranch ⟨0, 0⟩ "here" = .ok b' := by decide +kernel
  have hspared : b'.Spared ⟨0, 0⟩ rest := by
    refine ⟨⟨?_, nofun⟩, ⟨?_, nofun⟩, ⟨nofun, fun _ => ?_⟩, trivial⟩
    · intro he
      cases he
    · intro he
      cases he
    · decide +kernel
  obtain ⟨-, hkeeps⟩ := retargeted_branch_keeps_hitting hreachable ⟨0, 0⟩ "here"
  exact ⟨hrun, by decide +kernel, hkeeps b' hrun rest hspared⟩

end Body

end Dalvik
