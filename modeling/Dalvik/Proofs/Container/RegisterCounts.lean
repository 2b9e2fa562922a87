/-
# Register counts are exact

The register counts of a method are of 16 bits, and so is every sum on the way to them.  What they
should be is said here by unbounded numbers: how many registers the parameters of a prototype take,
how many the arguments of a method take, and how many an instruction passes on.  A sum of 16 bits
that is checked at every step is as good as one check of the whole sum, and the greatest of several
numbers fits if all of them do.  So the counts fail exactly if one of the unbounded numbers exceeds
16 bits, and otherwise they are those numbers.

Calls are told by their mnemonics here, and not by ranges of opcodes.

* `Checked`: a number of 16 bits, or the refusal of a number that does not fit;
* `checked_parameterRegisters`, `checked_insCount`, `checked_outgoing`: one for each sum;
* `registerCounts_exact`: the main statement.
-/
import Mathlib.Algebra.GroupWithZero.Nat
import Dalvik.Container.CodeItem
import Dalvik.Proofs.Outcome

namespace Dalvik

/-! ## 1. Widths without a bound -/

/-- Whether a value of the type takes a pair of registers: long and double. -/
def isWide (descriptor : String) : Bool :=
  descriptor.toList.head? == some 'J' || descriptor.toList.head? == some 'D'

/-- The number of registers that the parameters take: one for each, and one more for each pair. -/
def Proto.width (p : Proto) : Nat :=
  p.parameters.length + p.parameters.countP isWide

/-- The number of registers that the arguments of a method take, the receiver among them. -/
def Method.argumentWidth (m : Method) : Nat :=
  m.proto.width + if m.isStatic then 0 else 1

namespace Operation

/-- Whether the mnemonic is the given one, be it for a list or for a range of registers. -/
def isForm (o : Operation) (mnemonic : String) : Bool :=
  [mnemonic, mnemonic ++ "/range"].contains o.mnemonic

/-- Whether the operand is the method to call, and nothing else. -/
def isMethodCall (o : Operation) : Bool :=
  ["invoke-virtual", "invoke-super", "invoke-direct", "invoke-static", "invoke-interface"].any
    o.isForm

end Operation

namespace Instruction

/-- What the opcode table says of the instruction. -/
def operation (i : Instruction) : Operation :=
  .ofOpcode i.opcode

/-- The instruction calls a method that it names with its prototype, not by a bare index. -/
def Calls (i : Instruction) (callee : MethodRef) : Prop :=
  i.operation.isMethodCall = true ∧ i.operand = .reference (.method callee)

/-- The number of registers that a call passes to a method, the receiver among them. -/
def callWidth (i : Instruction) (callee : MethodRef) : Nat :=
  callee.proto.width + if i.operation.isForm "invoke-static" then 0 else 1

/-- The number of registers that an instruction passes by what it lists, as far as 16 bits go. -/
def listedWidth (i : Instruction) : Nat :=
  if i.operation.isForm "filled-new-array" then 0
  else if i.format.isInvoke then min i.registers.length 65535
  else 0

/-- The number of registers that an instruction passes on. -/
def passedWidth (i : Instruction) : Nat :=
  match i.operand with
  | .reference (.method callee) =>
    if i.operation.isMethodCall then i.callWidth callee else i.listedWidth
  | _ => i.listedWidth

theorem passedWidth_of_calls {i : Instruction} {callee : MethodRef} (h : i.Calls callee) :
    i.passedWidth = i.callWidth callee := by
  rw [passedWidth, h.2]
  exact if_pos h.1

theorem passedWidth_of_not_calls {i : Instruction} (h : ∀ callee, ¬i.Calls callee) :
    i.passedWidth = i.listedWidth := by
  unfold passedWidth
  split
  case h_1 callee hop => exact if_neg fun hcall => h callee ⟨hcall, hop⟩
  case h_2 => rfl

/-- What is listed fits 16 bits. -/
theorem listedWidth_le (i : Instruction) : i.listedWidth ≤ 65535 := by
  unfold listedWidth
  split
  · exact Nat.zero_le _
  · split
    · exact Nat.min_le_right ..
    · exact Nat.zero_le _

/-- What an instruction passes on exceeds 16 bits only by a callee that it names. -/
theorem passedWidth_le_iff {i : Instruction} :
    i.passedWidth ≤ 65535 ↔ ∀ callee, i.Calls callee → i.callWidth callee ≤ 65535 := by
  constructor
  · intro hle callee hcalls
    rwa [passedWidth_of_calls hcalls] at hle
  · intro hall
    by_cases hcalls : ∃ callee, i.Calls callee
    · obtain ⟨callee, hcallee⟩ := hcalls
      rw [passedWidth_of_calls hcallee]
      exact hall callee hcallee
    · rw [passedWidth_of_not_calls (not_exists.mp hcalls)]
      exact i.listedWidth_le

end Instruction

/-- The greatest number of registers that an instruction of a body passes on. -/
def Body.passedWidth (b : Body) : Nat :=
  (b.instructions.map Instruction.passedWidth).foldr max 0

/-- The arguments of the method, or of a callee that the body names, exceed 16 bits. -/
def Method.Exceeds (m : Method) (b : Body) : Prop :=
  65535 < m.argumentWidth ∨
    ∃ i ∈ b.instructions, ∃ callee, i.Calls callee ∧ 65535 < i.callWidth callee

/-! ## 2. Numbers of 16 bits -/

/-- The answer for a number: the number, which is of 16 bits then, or a failure, if it is not. -/
inductive Checked (n : Nat) : Except Error UInt16 → Prop
  | fits {v : UInt16} (h : v.toNat = n) : Checked n (.ok v)
  | exceeds (h : 65535 < n) (text : String) : Checked n (.error (.malformed text))

theorem toNat_max (a b : UInt16) : (max a b).toNat = max a.toNat b.toNat := by
  simp only [Nat.max_def, ← UInt16.le_iff_toNat_le]
  change (if a ≤ b then b else a).toNat = _
  split <;> rfl

namespace Checked

theorem ok (v : UInt16) : Checked v.toNat (.ok v) :=
  .fits rfl

theorem le_iff {n : Nat} {x : Except Error UInt16} (h : Checked n x) :
    n ≤ 65535 ↔ ∃ v, x = .ok v := by
  cases h with
  | @fits v h =>
    have hv := v.toNat_lt
    exact ⟨fun _ => ⟨v, rfl⟩, fun _ => by omega⟩
  | exceeds h => exact ⟨fun hle => by omega, fun ⟨_, hv⟩ => by cases hv⟩

theorem toNat_eq {n : Nat} {v : UInt16} (h : Checked n (.ok v)) : v.toNat = n := by
  cases h with
  | fits h => exact h

/-- Two answers for one number differ in the text of a failure at most. -/
theorem toOption_eq {n : Nat} {x y : Except Error UInt16} (hx : Checked n x) (hy : Checked n y) :
    x.toOption = y.toOption := by
  have hle := hx.le_iff.symm.trans hy.le_iff
  cases hx with
  | @fits v h =>
    obtain ⟨w, rfl⟩ := hle.mp ⟨v, rfl⟩
    rw [UInt16.toNat_inj.mp (h.trans hy.toNat_eq.symm)]
  | exceeds =>
    cases y with
    | error => rfl
    | ok w =>
      obtain ⟨v, hv⟩ := hle.mpr ⟨w, rfl⟩
      cases hv

/-- The failure that counting ends in. -/
theorem failsWith_malformed {n : Nat} {x : Except Error UInt16} (h : Checked n x) :
    FailsWith (fun cause => ∃ text, cause = .malformed text) x := by
  cases h with
  | fits => exact failsWith_ok
  | exceeds _ text => exact failsWith_error.mpr ⟨text, rfl⟩

theorem sum16 (excess : String) (a b : UInt16) :
    Checked (a.toNat + b.toNat) (Bytes.sum16 excess a b) := by
  unfold Bytes.sum16
  split
  case isTrue h => exact .fits (by rw [UInt16.toNat_add, Nat.mod_eq_of_lt h])
  case isFalse h => exact .exceeds (by omega) _

/-- A step after the check of a part checks the whole, if the whole is no less than the part. -/
theorem bind {m n : Nat} {x : Except Error UInt16} {f : UInt16 → Except Error UInt16}
    (hx : Checked m x) (hle : m ≤ n) (hf : ∀ v, v.toNat = m → Checked n (f v)) :
    Checked n (x >>= f) := by
  cases hx with
  | fits h => exact hf _ h
  | exceeds h text => exact .exceeds (by omega) text

/-- A sum that is checked at every step: a part of it does not exceed what the whole does not. -/
theorem foldlM_sum16 (excess : String) (width : String → UInt16) (total : UInt16)
    (l : List String) :
    Checked (total.toNat + (l.map fun s => (width s).toNat).sum)
      (l.foldlM (fun total s => Bytes.sum16 excess total (width s)) total) := by
  induction l generalizing total with
  | nil => exact ok total
  | cons s rest ih =>
    rw [List.map_cons, List.sum_cons, List.foldlM_cons]
    refine (sum16 excess total (width s)).bind (by omega) fun v hv => ?_
    have hrest := ih v
    rwa [hv, Nat.add_assoc] at hrest

/-- The greatest of numbers that are checked one by one. -/
theorem foldlM_max {α : Type} {width : α → Nat} {f : α → Except Error UInt16}
    (hf : ∀ a, Checked (width a) (f a)) (greatest : UInt16) (l : List α) :
    Checked (max greatest.toNat ((l.map width).foldr max 0))
      (l.foldlM (fun greatest a => return max greatest (← f a)) greatest) := by
  induction l generalizing greatest with
  | nil =>
    rw [List.map_nil, List.foldr_nil, Nat.max_eq_left (Nat.zero_le _)]
    exact ok greatest
  | cons a rest ih =>
    rw [List.map_cons, List.foldr_cons, List.foldlM_cons, ← Nat.max_assoc, bind_assoc]
    refine (hf a).bind (by omega) fun v hv => ?_
    have hrest := ih (max greatest v)
    rwa [toNat_max, hv] at hrest

end Checked

/-! ## 3. The sums of the code -/

/-- The first byte of a character is an ASCII letter only if the character is that letter. -/
theorem head?_utf8EncodeChar_eq_letter {c a : Char} (ha : a.toNat < 128) :
    (String.utf8EncodeChar c).head? = some (letter a) ↔ c = a := by
  have hbyte (n : Nat) (hn : n < 256) : UInt8.ofNat n = letter a ↔ n = a.toNat := by
    rw [letter, Nat.toUInt8_eq, ← UInt8.toNat_inj, UInt8.toNat_ofNat_of_lt' hn,
      UInt8.toNat_ofNat_of_lt' (by omega : a.toNat < 256)]
  have hchar : c.val.toNat = a.toNat ↔ c = a := Char.toNat_inj
  rw [← hchar]
  unfold String.utf8EncodeChar
  dsimp only
  split
  case isTrue => rw [List.head?_cons, Option.some.injEq, hbyte _ (by omega)]
  case isFalse =>
    -- the first of several bytes is at least 192
    repeat' split
    all_goals
      rw [List.head?_cons, Option.some.injEq, hbyte _ (by omega)]
      omega

theorem registerWidth_eq (descriptor : String) :
    registerWidth descriptor = if isWide descriptor then 2 else 1 := by
  unfold registerWidth firstByte? isWide
  cases descriptor.toList.head? with
  | none => rfl
  | some c =>
    have hletter (a : Char) (ha : a.toNat < 128) :
        ((String.utf8EncodeChar c).head? == some (letter a)) = (some c == some a) := by
      rw [Bool.eq_iff_iff, beq_iff_eq, beq_iff_eq, head?_utf8EncodeChar_eq_letter ha,
        Option.some.injEq]
    rw [Option.bind_some, ← hletter 'J' (by decide), ← hletter 'D' (by decide)]
    cases (String.utf8EncodeChar c).head? <;> rfl

theorem sum_registerWidth (descriptors : List String) :
    (descriptors.map fun s => (registerWidth s).toNat).sum =
      descriptors.length + descriptors.countP isWide := by
  induction descriptors with
  | nil => rfl
  | cons s rest ih =>
    have hwidth : (registerWidth s).toNat = 1 + if isWide s then 1 else 0 := by
      rw [registerWidth_eq]
      split <;> rfl
    rw [List.map_cons, List.sum_cons, ih, hwidth, List.length_cons, List.countP_cons]
    omega

/-- **The parameters** of a prototype. -/
theorem Proto.checked_parameterRegisters (p : Proto) : Checked p.width p.parameterRegisters := by
  have h := Checked.foldlM_sum16 s!"{p.parameters.length} parameters exceed 65535 registers"
    registerWidth 0 p.parameters
  rw [sum_registerWidth, UInt16.toNat_zero, Nat.zero_add] at h
  exact h

/-- **The arguments** of a method. -/
theorem Method.checked_insCount (m : Method) : Checked m.argumentWidth m.insCount := by
  refine m.proto.checked_parameterRegisters.bind (Nat.le_add_right ..) fun v hv => ?_
  have h := Checked.sum16 s!"{m.name} takes more than 65535 argument registers" v
    (if m.isStatic then 0 else 1)
  have hreceiver : (if m.isStatic then 0 else 1 : UInt16).toNat = if m.isStatic then 0 else 1 := by
    split <;> rfl
  rwa [hv, hreceiver] at h

/-- The entry of an opcode is at its place in the table. -/
theorem Operation.mem_zipIdx_entries (code : UInt8) :
    (ofOpcode code, code.toNat) ∈ entries.zipIdx := by
  have hlength : entries.length = 256 := by decide +kernel
  have hlt : code.toNat < entries.length := by
    rw [hlength]
    exact code.toNat_lt
  have hentry : ofOpcode code = entries[code.toNat] := by
    unfold ofOpcode table
    rw [Array.getD_eq_getD_getElem?, List.getElem?_toArray, List.getElem?_eq_getElem hlt,
      Option.getD_some]
  rw [hentry]
  exact List.mem_zipIdx_iff_getElem?.mpr (List.getElem?_eq_getElem hlt)

namespace Instruction

/-- The opcodes that the code looks for are those of the mnemonics. -/
theorem forms_eq (i : Instruction) : i.isPlainCall = i.operation.isMethodCall ∧
    i.isStaticCall = i.operation.isForm "invoke-static" ∧
    i.isFilledArray = i.operation.isForm "filled-new-array" := by
  have hall : ∀ e ∈ Operation.entries.zipIdx,
      let i : Instruction := { opcode := UInt8.ofNat e.2, format := .f10x }
      i.isPlainCall = e.1.isMethodCall ∧ i.isStaticCall = e.1.isForm "invoke-static" ∧
        i.isFilledArray = e.1.isForm "filled-new-array" := by
    decide +kernel
  have hi := hall (i.operation, i.opcode.toNat) (Operation.mem_zipIdx_entries i.opcode)
  dsimp only at hi
  rw [UInt8.ofNat_toNat] at hi
  exact hi

theorem callee?_eq_some {i : Instruction} {callee : MethodRef} :
    i.callee? = some callee ↔ i.Calls callee := by
  rw [Calls, ← (forms_eq i).1]
  unfold callee?
  split
  case h_1 named hop =>
    rw [hop]
    cases i.isPlainCall
    · simp
    · simp
  case h_2 hop =>
    constructor
    · intro h
      cases h
    · rintro ⟨-, h⟩
      exact absurd h (hop callee)

theorem toNat_argumentRegisters (i : Instruction) : i.argumentRegisters.toNat =
    if i.format.isInvoke then min i.registers.length 65535 else 0 := by
  unfold argumentRegisters
  split
  case isTrue =>
    split
    case isTrue h =>
      rw [Nat.toUInt16_eq, UInt16.toNat_ofNat_of_lt' h]
      omega
    case isFalse h =>
      change 65535 = _
      omega
  case isFalse => rfl

/-- **The registers that an instruction passes on.** -/
theorem checked_outgoing (i : Instruction) : Checked i.passedWidth i.outgoing := by
  unfold outgoing
  cases hcallee : i.callee? with
  | some callee =>
    rw [passedWidth_of_calls (callee?_eq_some.mp hcallee), callWidth]
    refine callee.proto.checked_parameterRegisters.bind (Nat.le_add_right ..) fun v hv => ?_
    rw [(forms_eq i).2.1, ← hv]
    cases i.operation.isForm "invoke-static"
    · exact Checked.sum16 _ v 1
    · exact Checked.ok v
  | none =>
    have hnone (callee : MethodRef) : ¬i.Calls callee := fun h => by
      rw [callee?_eq_some.mpr h] at hcallee
      cases hcallee
    rw [passedWidth_of_not_calls hnone, listedWidth, ← (forms_eq i).2.2,
      ← toNat_argumentRegisters]
    cases i.isFilledArray
    · exact Checked.ok i.argumentRegisters
    · exact Checked.ok 0

end Instruction

/-! ## 4. The counts -/

theorem foldr_max_le_iff {l : List Nat} {n : Nat} : l.foldr max 0 ≤ n ↔ ∀ a ∈ l, a ≤ n := by
  induction l with
  | nil => simp
  | cons a l ih => rw [List.foldr_cons, Nat.max_le, ih, List.forall_mem_cons]

theorem Method.not_exceeds_iff {m : Method} {b : Body} :
    ¬m.Exceeds b ↔ m.argumentWidth ≤ 65535 ∧ b.passedWidth ≤ 65535 := by
  rw [Exceeds, not_or, Nat.not_lt, Body.passedWidth, foldr_max_le_iff, List.forall_mem_map]
  simp only [Instruction.passedWidth_le_iff, not_exists, not_and, Nat.not_lt]

/-- The greatest of what the instructions pass on is the same in any order. -/
theorem Body.passedWidth_perm {b b' : Body} (h : b.instructions.Perm b'.instructions) :
    b.passedWidth = b'.passedWidth :=
  (h.map Instruction.passedWidth).foldr_eq' (fun x _ y _ z => Nat.max_left_comm y x z) 0

/-- **What a body passes on.** -/
theorem Body.checked_outgoing (b : Body) : Checked b.passedWidth
    (b.instructions.foldlM (fun outs i => return max outs (← i.outgoing)) 0) := by
  have h := Checked.foldlM_max Instruction.checked_outgoing 0 b.instructions
  rwa [UInt16.toNat_zero, Nat.zero_max] at h

/-- The counts are those of the unbounded numbers, and there are no more registers than have to
be. -/
structure RegisterCounts.Exact (counts : RegisterCounts) (options : Container.Options) (m : Method)
    (b : Body) : Prop where
  ins : counts.ins.toNat = m.argumentWidth
  outs : counts.outs.toNat = b.passedWidth
  holdsDeclared : m.registers ≤ counts.registers
  holdsIns : counts.ins ≤ counts.registers
  holdsOuts : options.maxOuts < counts.outs → counts.outs ≤ counts.registers
  least : ∀ n, m.registers ≤ n → counts.ins ≤ n →
    (options.maxOuts < counts.outs → counts.outs ≤ n) → counts.registers ≤ n

section Counts

variable {options : Container.Options} {m : Method} {b : Body}

/-- A number of registers is enough exactly if it holds what is declared, the arguments, and what
is passed on, if that is counted. -/
theorem registers_le_iff (declared ins outs n : UInt16) :
    (if options.maxOuts < outs then max (max declared ins) outs else max declared ins) ≤ n ↔
      declared ≤ n ∧ ins ≤ n ∧ (options.maxOuts < outs → outs ≤ n) := by
  simp only [UInt16.le_iff_toNat_le]
  split
  case isTrue h =>
    rw [toNat_max, toNat_max, Nat.max_le, Nat.max_le, and_assoc]
    simp [h]
  case isFalse h =>
    rw [toNat_max, Nat.max_le]
    simp [h]

theorem Method.exact_of_registerCounts {counts : RegisterCounts}
    (h : m.registerCounts options b = .ok counts) : counts.Exact options m b := by
  obtain ⟨ins, hi, h⟩ := bind_eq_ok.mp h
  obtain ⟨outs, ho, h⟩ := bind_eq_ok.mp h
  have hins : Checked m.argumentWidth (.ok ins) := hi ▸ m.checked_insCount
  have houts : Checked b.passedWidth (.ok outs) := ho ▸ b.checked_outgoing
  have hle : ∀ n, counts.registers ≤ n ↔
      m.registers ≤ n ∧ ins ≤ n ∧ (options.maxOuts < outs → outs ≤ n) := by
    rw [← pure_eq_ok.mp h]
    exact registers_le_iff m.registers ins outs
  obtain ⟨hdeclared, hholds, hpassed⟩ := (hle counts.registers).mp (UInt16.le_refl _)
  rw [← pure_eq_ok.mp h] at hle hdeclared hholds hpassed ⊢
  exact
    { ins := hins.toNat_eq
      outs := houts.toNat_eq
      holdsDeclared := hdeclared
      holdsIns := hholds
      holdsOuts := hpassed
      least := fun n hd hi ho => (hle n).mpr ⟨hd, hi, ho⟩ }

theorem Method.registerCounts_ok_iff :
    (∃ counts, m.registerCounts options b = .ok counts) ↔ ¬m.Exceeds b := by
  rw [not_exceeds_iff, m.checked_insCount.le_iff, b.checked_outgoing.le_iff]
  constructor
  · rintro ⟨counts, h⟩
    obtain ⟨ins, hi, h⟩ := bind_eq_ok.mp h
    obtain ⟨outs, ho, -⟩ := bind_eq_ok.mp h
    exact ⟨⟨ins, hi⟩, ⟨outs, ho⟩⟩
  · rintro ⟨⟨ins, hi⟩, ⟨outs, ho⟩⟩
    exact ⟨_, bind_eq_ok.mpr ⟨ins, hi, bind_eq_ok.mpr ⟨outs, ho, rfl⟩⟩⟩

theorem Method.failsWith_registerCounts :
    FailsWith (fun cause => ∃ text, cause = .malformed text) (m.registerCounts options b) := by
  rw [registerCounts, failsWith_bind]
  refine ⟨m.checked_insCount.failsWith_malformed, fun ins _ => ?_⟩
  rw [failsWith_bind]
  exact ⟨b.checked_outgoing.failsWith_malformed, fun outs _ => failsWith_pure⟩

/-- Only the text of a failure can depend on the order of the instructions. -/
theorem Method.registerCounts_perm {b' : Body} (h : b.instructions.Perm b'.instructions) :
    (m.registerCounts options b').toOption = (m.registerCounts options b).toOption := by
  have houts := b'.checked_outgoing
  rw [← Body.passedWidth_perm h] at houts
  unfold registerCounts
  cases m.insCount with
  | error => rfl
  | ok ins => exact toOption_bind_congr (houts.toOption_eq b.checked_outgoing) _

/-- **The register counts are exact.**  They fail, as malformed, exactly if the arguments of the
method or of a callee that the body names exceed 16 bits.  Otherwise they are the unbounded numbers,
with as many registers as it takes to hold them.  The order of the instructions does not matter,
except for the text of a failure, which names the first callee that is too wide. -/
theorem Method.registerCounts_exact (options : Container.Options) (m : Method) (b : Body) :
    let outcome := m.registerCounts options b
    ((∃ cause, outcome = .error cause) ↔ m.Exceeds b) ∧
    (∀ cause, outcome = .error cause → ∃ text, cause = .malformed text) ∧
    (¬m.Exceeds b → ∃ counts, outcome = .ok counts ∧ counts.Exact options m b) ∧
    ∀ b' : Body, b.instructions.Perm b'.instructions →
      (m.registerCounts options b').toOption = outcome.toOption := by
  intro outcome
  have hok : (∃ counts, outcome = .ok counts) ↔ ¬m.Exceeds b := registerCounts_ok_iff
  refine ⟨?_, failsWith_registerCounts, fun hfits => ?_, fun b' => registerCounts_perm⟩
  · rw [← not_iff_not, ← hok]
    cases outcome with
    | error cause => simp
    | ok counts => simp
  · obtain ⟨counts, hcounts⟩ := hok.mpr hfits
    exact ⟨counts, hcounts, exact_of_registerCounts hcounts⟩

/-- With a receiver, 32767 pairs of registers are as many as 16 bits hold. -/
theorem Method.registerCounts_exact_pairs :
    let taking (pairs : Nat) : Method :=
      { name := "run", proto := { returnType := "V", parameters := List.replicate pairs "J" } }
    (∃ counts, (taking 32767).registerCounts {} {} = .ok counts ∧ counts.ins.toNat = 65535) ∧
      ∃ cause, (taking 32768).registerCounts {} {} = .error cause := by
  intro taking
  have hwidth (pairs : Nat) : (taking pairs).argumentWidth = pairs + pairs + 1 := by
    have hwide : isWide "J" = true := by decide
    have hinstance : (taking pairs).isStatic = false :=
      (by decide : ({} : AccessFlags).isStatic = false)
    rw [argumentWidth, Proto.width, hinstance, List.countP_replicate, if_pos hwide,
      List.length_replicate]
    rfl
  have hfits : ¬(taking 32767).Exceeds {} := by
    rw [not_exceeds_iff, hwidth]
    exact ⟨by decide, Nat.zero_le _⟩
  obtain ⟨-, -, hok, -⟩ := registerCounts_exact {} (taking 32767) {}
  obtain ⟨hfails, -⟩ := registerCounts_exact {} (taking 32768) {}
  obtain ⟨counts, hcounts, hexact⟩ := hok hfits
  refine ⟨⟨counts, hcounts, ?_⟩, hfails.mpr (.inl ?_)⟩
  · rw [hexact.ins, hwidth]
  · rw [hwidth]
    decide

end Counts

end Dalvik
