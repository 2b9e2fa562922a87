/-
# Writing an instruction, or nothing of it

`Instruction.write` appends units while it still looks for faults, and `CodeWriter.emit` takes back
what a failed instruction has left.  What is left is then what `Instruction.encode` gives, which
answers at once.

Main statements: `Instruction.writes_encode`, that the two ways of encoding agree on the units and
on the fault, and `CodeWriter.emitEach_eq_encodable`, that any sequence of calls leaves the units of
exactly the instructions that can be encoded.
-/
import Dalvik.Proofs.Instruction.Packing
import Dalvik.Proofs.Outcome

namespace Dalvik

namespace CodeWriter

/-! ## 1. Writers beside direct answers -/

theorem append_units (done : Array UInt16) (units rest : List UInt16) :
    done ++ units ++ rest = done ++ (units ++ rest) := by
  simp [← Array.toList_inj]

/-- The writer appends these units, whatever is there. -/
def Appends (w : CodeWriter Unit) (units : List UInt16) : Prop :=
  ∀ done, w done = .ok () (done ++ units)

namespace Appends

variable {w : CodeWriter Unit} {f : Unit → CodeWriter Unit} {units rest : List UInt16}

theorem nothing : Appends (pure ()) [] := by
  intro done
  exact statePure_eq_ok.mpr ⟨rfl, by simp⟩

theorem push (unit : UInt16) : Appends (push unit) [unit] :=
  fun _ => rfl

theorem bind (h : Appends w units) (hf : Appends (f ()) rest) :
    Appends (w >>= f) (units ++ rest) := by
  intro done
  refine stateBind_eq_ok.mpr ⟨(), _, h done, ?_⟩
  rw [hf, append_units]

theorem pushWord (value : Int) : Appends (pushWord value) (wordUnits value) :=
  (push _).bind (push _)

theorem forM {α : Type} {f : α → CodeWriter Unit} {units : α → List UInt16}
    (h : ∀ a, Appends (f a) (units a)) (l : List α) : Appends (l.forM f) (l.flatMap units) := by
  induction l with
  | nil => exact nothing
  | cons a l ih => exact (h a).bind ih

theorem pushBytes : ∀ data : List UInt8, Appends (pushBytes data) (unitsOfBytes [] data)
  | [] => nothing
  | [_] => push _
  | low :: high :: rest => by
    rw [unitsOfBytes_cons]
    exact (push _).bind (pushBytes rest)

end Appends

/-- A writer beside a direct answer, of whose units it has appended the first: it appends the
others, or fails for the same cause with some units left behind. -/
structure Writes (front : List UInt16) (w : CodeWriter Unit) (x : Except Error (List UInt16)) :
    Prop where
  ok : ∀ {units} (done : Array UInt16), x = .ok units → w (done ++ front) = .ok () (done ++ units)
  error : ∀ {cause} (done : Array UInt16), x = .error cause →
    ∃ left : List UInt16, w (done ++ front) = .error cause (done ++ left)

namespace Writes

variable {α : Type} {front units : List UInt16} {w : CodeWriter Unit} {f : Unit → CodeWriter Unit}
  {x : Except Error (List UInt16)}

/-- The last units. -/
theorem last (h : Appends w units) : Writes front w (pure (front ++ units)) where
  ok done hx := by
    rw [h, ← pure_eq_ok.mp hx, append_units]
  error _ hx := (pure_ne_error hx).elim

/-- Units that are appended before all faults are found. -/
theorem step (h : Appends w units) (hf : Writes (front ++ units) (f ()) x) :
    Writes front (w >>= f) x where
  ok done hx := by
    refine stateBind_eq_ok.mpr ⟨(), _, h _, ?_⟩
    rw [append_units]
    exact hf.ok done hx
  error done hx := by
    obtain ⟨left, hleft⟩ := hf.error done hx
    refine ⟨left, stateBind_eq_error.mpr (.inr ⟨(), _, h _, ?_⟩)⟩
    rw [append_units]
    exact hleft

theorem fault {cause : Error} {w : CodeWriter Unit} (h : ∀ done, w done = .error cause done) :
    Writes front w (.error cause) where
  ok _ hx := by cases hx
  error done hx := by
    cases hx
    exact ⟨front, h _⟩

/-- A part of the instruction that both look at. -/
theorem look {y : Except Error α} {f : α → CodeWriter Unit} {g : α → Except Error (List UInt16)}
    (h : ∀ a, y = .ok a → Writes front (f a) (g a)) :
    Writes front ((liftM y : CodeWriter α) >>= f) (y >>= g) := by
  cases y with
  | error cause => exact .fault fun _ => rfl
  | ok a => exact h a rfl

end Writes

end CodeWriter

namespace Instruction

open CodeWriter

variable (ix : Indexer) (i : Instruction)

/-! ## 2. The formats -/

theorem writes_packedSwitch (hf : i.format = .packedSwitch) :
    Writes [] (i.write ix) (i.encode ix) := by
  unfold write encode
  rw [hf]
  cases i.operand with
  | packedSwitch firstKey targets =>
    refine .step (.push _) (.look fun size _ => ?_)
    exact .step (.push _) (.step (.pushWord _) (.last (.forM (fun _ => .pushWord _) _)))
  | _ => exact .fault fun _ => rfl

theorem writes_sparseSwitch (hf : i.format = .sparseSwitch) :
    Writes [] (i.write ix) (i.encode ix) := by
  unfold write encode
  rw [hf]
  cases i.operand with
  | sparseSwitch keys targets =>
    dsimp only
    split
    case isTrue => exact .fault fun _ => rfl
    case isFalse =>
      refine .step (.push _) (.look fun size _ => ?_)
      exact .step (.push _) (.last (.forM (fun _ => .pushWord _) _))
  | _ => exact .fault fun _ => rfl

theorem writes_arrayData (hf : i.format = .arrayData) :
    Writes [] (i.write ix) (i.encode ix) := by
  unfold write encode
  rw [hf]
  cases i.operand with
  | arrayData elementWidth data =>
    dsimp only
    split
    case isTrue => exact .fault fun _ => rfl
    case isFalse =>
      split
      case isTrue => exact .fault fun _ => rfl
      case isFalse =>
        refine .step (.push _) (.step (.push _) (.step (.pushWord _) ?_))
        exact .last (.pushBytes data)
  | _ => exact .fault fun _ => rfl

/-- **The two ways of encoding agree**, on the units and on the fault: what the writer looks at
before, between and after its units is what the answer looks at, in the same order. -/
theorem writes_encode : Writes [] (i.write ix) (i.encode ix) := by
  cases hf : i.format
  case packedSwitch => exact writes_packedSwitch ix i hf
  case sparseSwitch => exact writes_sparseSwitch ix i hf
  case arrayData => exact writes_arrayData ix i hf
  all_goals simp only [write, encode, hf]
  case f10x => exact .look fun _ _ => .last (.push _)
  case f12x => exact .look fun _ _ => .look fun _ _ => .look fun _ _ => .last (.push _)
  case f11n => exact .look fun _ _ => .look fun _ _ => .look fun _ _ => .last (.push _)
  case f11x => exact .look fun _ _ => .look fun _ _ => .last (.push _)
  case f10t => exact .look fun _ _ => .look fun _ _ => .last (.push _)
  case f20t => exact .look fun _ _ => .step (.push _) (.look fun _ _ => .last (.push _))
  case f22x => exact .look fun _ _ => .look fun _ _ => .step (.push _) (.last (.push _))
  case f21t =>
    exact .look fun _ _ => .look fun _ _ => .step (.push _) (.look fun _ _ => .last (.push _))
  case f21s =>
    exact .look fun _ _ => .look fun _ _ => .step (.push _) (.look fun _ _ => .last (.push _))
  case f21h =>
    exact .look fun _ _ => .look fun _ _ => .look fun _ _ => .step (.push _) (.last (.push _))
  case f21c =>
    exact .look fun _ _ => .look fun _ _ => .look fun _ _ => .look fun _ _ =>
      .step (.push _) (.last (.push _))
  case f23x =>
    exact .look fun _ _ => .look fun _ _ => .step (.push _)
      (.look fun _ _ => .look fun _ _ => .last (.push _))
  case f22b =>
    exact .look fun _ _ => .look fun _ _ => .look fun _ _ => .step (.push _)
      (.look fun _ _ => .last (.push _))
  case f22t =>
    exact .look fun _ _ => .look fun _ _ => .look fun _ _ => .step (.push _)
      (.look fun _ _ => .last (.push _))
  case f22s =>
    exact .look fun _ _ => .look fun _ _ => .look fun _ _ => .step (.push _)
      (.look fun _ _ => .last (.push _))
  case f22c =>
    exact .look fun _ _ => .look fun _ _ => .look fun _ _ => .look fun _ _ => .look fun _ _ =>
      .step (.push _) (.last (.push _))
  case f32x =>
    exact .look fun _ _ => .step (.push _) (.step (.push _) (.last (.push _)))
  case f30t => exact .look fun _ _ => .step (.push _) (.look fun _ _ => .last (.pushWord _))
  case f31t =>
    exact .look fun _ _ => .look fun _ _ => .step (.push _) (.look fun _ _ => .last (.pushWord _))
  case f31i =>
    exact .look fun _ _ => .look fun _ _ => .step (.push _) (.look fun _ _ => .last (.pushWord _))
  case f31c =>
    exact .look fun _ _ => .look fun _ _ => .look fun _ _ => .step (.push _) (.last (.pushWord _))
  case f35c =>
    exact .look fun _ _ => .look fun _ _ => .look fun _ _ =>
      .step (.push _) (.step (.push _) (.last (.push _)))
  case f45cc =>
    exact .look fun _ _ => .look fun _ _ => .look fun _ _ =>
      .step (.push _) (.step (.push _) (.step (.push _)
        (.look fun _ _ => .look fun _ _ => .last (.push _))))
  case f3rc =>
    exact .look fun _ _ => .look fun _ _ => .look fun _ _ =>
      .step (.push _) (.step (.push _) (.last (.push _)))
  case f4rcc =>
    exact .look fun _ _ => .look fun _ _ => .look fun _ _ =>
      .step (.push _) (.step (.push _) (.step (.push _)
        (.look fun _ _ => .look fun _ _ => .last (.push _))))
  case f51l =>
    exact .look fun _ _ => .look fun _ _ => .look fun _ _ =>
      .step (.push _) (.step (.pushWord _) (.last (.pushWord _)))

set_option maxRecDepth 4000 in
/-- Three units stand there when the second reference turns out to be too large. -/
example :
    let call : Instruction :=
      { opcode := 0xFA, format := .f45cc, registers := [1],
        operand := .dualReference (.raw .method 7) (.raw .proto 0x10000) }
    call.write Indexer.rawIndices #[0x000E] =
        .error (.malformed "pool index 65536 exceeds 16 bits") #[0x000E, 0x10FA, 0x0007, 0x0001] ∧
      CodeWriter.emit Indexer.rawIndices call #[0x000E] =
        .error (.malformed "pool index 65536 exceeds 16 bits") #[0x000E] := by
  exact ⟨rfl, rfl⟩

end Instruction

namespace CodeWriter

/-! ## 3. Emitting -/

variable {ix : Indexer} {i : Instruction}

theorem shrink_append (done : Array UInt16) (left : List UInt16) :
    (done ++ left).shrink done.size = done := by
  rw [← Array.toList_inj, Array.toList_shrink, Array.toList_appendList, ← Array.length_toList,
    List.take_left]

theorem truncate_append (done : Array UInt16) (left : List UInt16) :
    truncate done.size (done ++ left) = .ok () done :=
  stateModify_eq_ok.mpr (shrink_append done left)

theorem emit_of_encode {units : List UInt16} (h : i.encode ix = .ok units) (done : Array UInt16) :
    emit ix i done = .ok () (done ++ units) := by
  have hw : i.write ix done = .ok () (done ++ units) := by
    simpa using (Instruction.writes_encode ix i).ok done h
  exact stateBind_eq_ok.mpr ⟨done.size, done, rfl, stateTryCatch_of_ok hw⟩

/-- What a failed instruction has left is taken back. -/
theorem emit_of_fault {cause : Error} (h : i.encode ix = .error cause) (done : Array UInt16) :
    emit ix i done = .error cause done := by
  obtain ⟨left, hleft⟩ := (Instruction.writes_encode ix i).error done h
  have hw : i.write ix done = .error cause (done ++ left) := by
    simpa using hleft
  refine stateBind_eq_error.mpr (.inr ⟨done.size, done, rfl, ?_⟩)
  rw [stateTryCatch_of_error hw]
  exact stateBind_eq_error.mpr (.inr ⟨(), done, truncate_append done left, rfl⟩)

/-- **An instruction is appended as a whole**, or nothing of it. -/
theorem emit_eq (ix : Indexer) (i : Instruction) :
    emit ix i =
      match i.encode ix with
      | .ok units => modify fun (done : Array UInt16) => done ++ units
      | .error cause => throw cause := by
  funext done
  cases he : i.encode ix with
  | ok units => rw [emit_of_encode he, eq_comm]; exact stateModify_eq_ok.mpr rfl
  | error cause => rw [emit_of_fault he]; rfl

/-! ## 4. Calls one after the other -/

/-- One call after the other, whatever the answers: the answer of each, and the position after. -/
def emitEach (ix : Indexer) (code : List Instruction) :
    CodeWriter (List (Except Error Unit × Nat)) :=
  code.mapM fun i => do
    let answer ← answered (emit ix i)
    return (answer, ← position)

/-- The units of the instructions that can be encoded, one after the other. -/
def encodable (ix : Indexer) (code : List Instruction) : List UInt16 :=
  (code.filterMap fun i => (i.encode ix).toOption).flatten

theorem encodable_cons (i : Instruction) (code : List Instruction) :
    encodable ix (i :: code) = encodable ix [i] ++ encodable ix code := by
  rw [encodable, ← List.singleton_append, List.filterMap_append, List.flatten_append]
  rfl

/-- One call, whatever its answer. -/
theorem emit_answered (ix : Indexer) (i : Instruction) (done : Array UInt16) :
    answered (emit ix i) done =
      .ok ((i.encode ix).map fun _ => ()) (done ++ encodable ix [i]) := by
  cases he : i.encode ix with
  | ok units =>
    have hunits : encodable ix [i] = units := by
      simp [encodable, he, Except.toOption]
    rw [hunits]
    exact answered_of_ok (emit_of_encode he done)
  | error cause =>
    have hunits : done ++ encodable ix [i] = done := by
      simp [encodable, he, Except.toOption]
    rw [hunits]
    exact answered_of_error (emit_of_fault he done)

/-- A run of calls that goes on from some units. -/
theorem emitEach_from (ix : Indexer) (code : List Instruction) (done : Array UInt16) :
    ∃ answers, emitEach ix code done = .ok answers (done ++ encodable ix code) ∧
      answers.length = code.length ∧
        ∀ k i, code[k]? = some i → answers[k]? = some ((i.encode ix).map fun _ => (),
          done.size + (encodable ix (code.take (k + 1))).length) := by
  induction code generalizing done with
  | nil => exact ⟨[], statePure_eq_ok.mpr ⟨rfl, by simp [encodable]⟩, rfl, by simp⟩
  | cons i code ih =>
    obtain ⟨answers, hrun, hlength, hanswers⟩ := ih (done ++ encodable ix [i])
    have hsize : (done ++ encodable ix [i]).size = done.size + (encodable ix [i]).length := by
      rw [← Array.length_toList, Array.toList_appendList, List.length_append, Array.length_toList]
    rw [append_units, ← encodable_cons] at hrun
    refine ⟨((i.encode ix).map fun _ => (), (done ++ encodable ix [i]).size) :: answers, ?_,
      by simp [hlength], ?_⟩
    · rw [emitEach, List.mapM_cons]
      refine stateBind_eq_ok.mpr
        ⟨_, _, stateBind_eq_ok.mpr ⟨_, _, emit_answered ix i done, rfl⟩, ?_⟩
      exact stateBind_eq_ok.mpr ⟨answers, _, hrun, rfl⟩
    · rintro (_ | k) j hj
      · obtain rfl : i = j := by simpa using hj
        simp [hsize]
      · have hk := hanswers k j (by simpa using hj)
        rw [List.take_succ_cons, encodable_cons i (code.take (k + 1)), List.length_append,
          ← Nat.add_assoc, ← hsize]
        simpa using hk

/-- **A call that fails leaves nothing behind.**  However many calls fail, and wherever in an
instruction they do, the units in the end are those of the instructions that can be encoded, in the
order of the calls; a call succeeds exactly for these, and otherwise fails as encoding does; and
the position after a call counts the units so far. -/
theorem emitEach_eq_encodable (ix : Indexer) (code : List Instruction) :
    ∃ answers units, emitEach ix code #[] = .ok answers units ∧
      units.toList = encodable ix code ∧ answers.length = code.length ∧
        ∀ k i, code[k]? = some i → ∃ answer,
          answers[k]? = some (answer, (encodable ix (code.take (k + 1))).length) ∧
            (answer = .ok () ↔ ∃ units, i.encode ix = .ok units) ∧
              ∀ cause, answer = .error cause ↔ i.encode ix = .error cause := by
  obtain ⟨answers, hrun, hlength, hanswers⟩ := emitEach_from ix code #[]
  refine ⟨answers, _, hrun, by simp, hlength, fun k i hk => ?_⟩
  refine ⟨(i.encode ix).map fun _ => (), by simpa using hanswers k i hk, ?_, fun cause =>
    map_eq_error⟩
  simp [map_eq_ok]

end CodeWriter

end Dalvik
