/-
# What is left of an output

An output in a file owns the file: it has its path, and is not finalized.  Writing keeps that, and
replaces bytes at their places or nothing (`writeAt_replaces`).  So whether the file is there in the
end is a matter of how the output ends: one that is dropped removes it, and both others leave it,
since an output whose path has been taken out cannot remove anything.

* `lifetime_eq`: what an output answers and leaves, from its creation to its end, when the system
  obeys;
* `file_left_unless_dropped`: the file is left unless the output is dropped.  Turning it into bytes
  leaves the file as well, both if that succeeds and if it fails (`intoBytes_leaves_file`);
* `finalize_leaves_file`: finalizing leaves the file also when the system refuses;
* `writeFile_eq`: a container is written to a file as a whole, or there is no new file.
-/
import Dalvik.Proofs.Container.Assembly

namespace Dalvik

/-- What a step answers, and the files after it. -/
def Disk.outcome {α : Type} (m : Disk α) (files : Files) : Except Error α × Files :=
  match m files with
  | .ok a files => (.ok a, files)
  | .error cause files => (.error cause, files)

namespace Output

/-! ## 1. Changes -/

/-- The output has the data at the offset, and is as before otherwise. -/
structure Replaced (o : Output) (offset : Nat) (data : List UInt8) (o' : Output) : Prop where
  path : o'.path? = o.path?
  finalized : o'.finalized = o.finalized
  size : o'.size = o.size
  byte (i : Nat) : o'.data[i]? =
    if offset ≤ i ∧ i < offset + data.length then data[i - offset]? else o.data[i]?

/-- **Writing** replaces exactly the bytes from the offset on, if they are there. -/
theorem writeAt_replaces {o : Output} {offset : Nat} {data : List UInt8}
    (h : offset + data.length ≤ o.size) :
    ∃ o', writeAt offset data o = .ok () o' ∧ Replaced o offset data o' := by
  refine ⟨_, writeAt_of_le h, rfl, rfl, ?_, fun i => ?_⟩
  · rw [size] at h
    simp only [size, List.length_append, List.length_take, List.length_drop]
    omega
  · rw [size] at h
    have hfront : (o.data.take offset).length = offset := List.length_take_of_le (by omega)
    dsimp only
    rcases Nat.lt_or_ge i offset with hbefore | hfrom
    · rw [List.append_assoc, List.getElem?_append_left (hfront.symm ▸ hbefore),
        List.getElem?_take_of_lt hbefore, if_neg (by omega)]
    · rw [List.append_assoc, List.getElem?_append_right (hfront.symm ▸ hfrom), hfront]
      rcases Nat.lt_or_ge i (offset + data.length) with hin | hbehind
      · rw [List.getElem?_append_left (by omega), if_pos ⟨hfrom, hin⟩]
      · rw [List.getElem?_append_right (by omega), if_neg (by omega), List.getElem?_drop]
        congr 1
        omega

/-- A change of an output that is in use. -/
inductive Change
  | write (offset : Nat) (data : List UInt8)
  | edit (f : Nat → UInt8 → UInt8)
  | flush (system : System)

def Change.writer : Change → OutputWriter Unit
  | write offset data => writeAt offset data
  | edit f => Output.edit f
  | flush system => Output.flush system

/-- The output after a change, whether it succeeds or fails. -/
def Change.after (change : Change) (o : Output) : Output :=
  match change.writer o with
  | .ok () o => o
  | .error _ o => o

/-- The output after changes, of which some may fail. -/
def changed (changes : List Change) (o : Output) : Output :=
  changes.foldl (fun o change => change.after o) o

/-- The output is of the given size, and the file at the path is its own. -/
structure Owns (path : String) (size : Nat) (o : Output) : Prop where
  path : o.path? = some path
  size : o.size = size
  open_ : o.finalized = false

variable {path : String} {size : Nat} {o : Output} {files : Files}

/-- **One change** keeps what an output owns. -/
theorem Owns.after (h : Owns path size o) (change : Change) : Owns path size (change.after o) := by
  cases change with
  | write offset data =>
    rcases Nat.lt_or_ge o.size (offset + data.length) with hlt | hle
    · have hafter : (Change.write offset data).after o = o := by
        rw [Change.after, Change.writer, writeAt_of_lt hlt]
      rwa [hafter]
    · obtain ⟨o', hrun, hreplaced⟩ := writeAt_replaces hle
      have hafter : (Change.write offset data).after o = o' := by
        rw [Change.after, Change.writer, hrun]
      rw [hafter]
      exact ⟨hreplaced.path.trans h.path, hreplaced.size.trans h.size,
        hreplaced.finalized.trans h.open_⟩
  | edit f =>
    have hsize : (o.data.mapIdx f).length = o.data.length := List.length_mapIdx
    exact ⟨h.path, hsize.trans h.size, h.open_⟩
  | flush system =>
    have hafter : (Change.flush system).after o = o := by
      have hrun : (Change.flush system).writer o = (if o.path?.isSome then
          liftM (System.call system.flushed fun cause =>
            .outputBuffer s!"Failed to flush mapping: {cause}")
        else pure () : OutputWriter Unit) o := rfl
      rw [Change.after, hrun, h.path, Option.isSome_some, if_pos rfl]
      cases system.flushed <;> rfl
    rwa [hafter]

/-- **Changes** keep what an output owns. -/
theorem Owns.changed (h : Owns path size o) (changes : List Change) :
    Owns path size (changed changes o) := by
  induction changes generalizing o with
  | nil => exact h
  | cons change changes ih => exact ih (h.after change)

/-! ## 2. Ends -/

/-- How an output ends. -/
inductive End
  | drop
  | finalize (size? : Option Nat)
  | intoBytes (size? : Option Nat)
  deriving DecidableEq

/-- Ends the output, with its bytes if they are asked for. -/
def End.run (system : System) (o : Output) : End → Disk (Option (List UInt8))
  | drop => do
    o.drop
    return none
  | finalize size? => do
    o.finalize system size?
    return none
  | intoBytes size? => some <$> o.intoBytes size?

/-- What the end of an output answers, when the system obeys. -/
def End.answer (o : Output) : End → Except Error (Option (List UInt8))
  | drop | finalize _ => .ok none
  | intoBytes size? => (o.taken size?).map some

/-- What is left in the file of an output. -/
def End.leaves (o : Output) : End → Option (List UInt8)
  | drop => none
  | finalize none | intoBytes _ => some o.data
  | finalize (some size) => some (Bytes.resized o.data size)

/-- **An output that is dropped** removes its file. -/
theorem drop_of_owns (h : Owns path size o) (files : Files) :
    o.drop files = .ok () (files.set path none) := by
  obtain ⟨data, path?, finalized⟩ := o
  obtain ⟨rfl, -, rfl⟩ := h
  have hrun : drop ⟨data, some path, false⟩ files =
      .ok () ((files.set path none).update path fun _ => data) := rfl
  rw [hrun, Files.update_set]
  rfl

/-- **An output that is turned into bytes** leaves its file, whatever it answers: nothing that it
drops has the path. -/
theorem intoBytes_of_owns (h : Owns path size o) (size? : Option Nat) (files : Files) :
    o.intoBytes size? files = match o.taken size? with
      | .ok bytes => .ok bytes (files.update path fun _ => o.data)
      | .error cause => .error cause (files.update path fun _ => o.data) := by
  obtain ⟨data, path?, finalized⟩ := o
  obtain ⟨rfl, -, rfl⟩ := h
  have hrun : intoBytes ⟨data, some path, false⟩ size? files =
      (match taken ⟨data, some path, false⟩ size? with
        | .ok bytes => do
          drop { data := [], finalized := true }
          return bytes
        | .error cause => do
          drop { data := [] }
          throw cause : Disk (List UInt8)) (files.update path fun _ => data) := rfl
  rw [hrun]
  cases taken ⟨data, some path, false⟩ size? <;> rfl

/-- **An output that is finalized** leaves its file at the size that is asked for, when the system
obeys. -/
theorem finalize_of_owns (h : Owns path size o) (size? : Option Nat) {old : List UInt8}
    (hold : files path = some old) :
    o.finalize {} size? files = .ok () (files.set path (End.leaves o (.finalize size?))) := by
  obtain ⟨data, path?, finalized⟩ := o
  obtain ⟨rfl, -, rfl⟩ := h
  have hunmapped : files.update path (fun _ => data) = files.set path (some data) := by
    rw [Files.update, hold]
    rfl
  cases size? with
  | none =>
    have hrun : finalize {} ⟨data, some path, false⟩ none files =
        .ok () (files.update path fun _ => data) := rfl
    rw [hrun, hunmapped]
    rfl
  | some n =>
    have hrun : finalize {} ⟨data, some path, false⟩ (some n) files =
        .ok () ((files.update path fun _ => data).update path (Bytes.resized · n)) := rfl
    rw [hrun, hunmapped, Files.update_set]
    rfl

/-- **Finalizing leaves the file** also where the system refuses to flush or to cut it. -/
theorem finalize_leaves_file (h : Owns path size o) (system : System) (size? : Option Nat)
    (hf : (files path).isSome) : (((o.finalize system size?).outcome files).2 path).isSome := by
  obtain ⟨data, path?, finalized⟩ := o
  obtain ⟨rfl, -, rfl⟩ := h
  obtain ⟨-, -, -, flushed, truncated⟩ := system
  have hunmapped : ((files.update path fun _ => data) path).isSome := by
    rw [Files.update_same, Option.isSome_map]
    exact hf
  cases flushed with
  | some cause => exact hunmapped
  | none =>
    cases size? with
    | none => exact hunmapped
    | some n =>
      cases truncated with
      | some cause => exact hunmapped
      | none =>
        have hcut : (((files.update path fun _ => data).update path
            (Bytes.resized · n)) path).isSome := by
          rw [Files.update_same, Option.isSome_map]
          exact hunmapped
        exact hcut

/-! ## 3. From creation to end -/

/-- A new output in a file. -/
def created (path : String) (size : Nat) : Output where
  data := zeros size
  path? := some path

theorem owns_created (path : String) (size : Nat) : Owns path size (created path size) :=
  ⟨rfl, List.length_replicate, rfl⟩

theorem create_eq (path : String) (size : Nat) (files : Files) : create {} path size files =
    .ok (created path size) (files.set path (some (zeros size))) := by
  have hrun : create {} path size files = .ok (created path size)
      ((files.set path (some [])).set path (some (zeros size))) := rfl
  rw [hrun, Files.set_set]

/-- An output in a file, from its creation over changes to its end; the system obeys all calls but
those to flush. -/
def lifetime (path : String) (size : Nat) (changes : List Change) (ending : End) :
    Disk (Option (List UInt8)) := do
  let o ← create {} path size
  ending.run {} (changed changes o)

/-- **A whole lifetime** answers as its end says, and changes the file of the output only. -/
theorem lifetime_eq (path : String) (size : Nat) (changes : List Change) (ending : End)
    (files : Files) : (lifetime path size changes ending).outcome files =
      (ending.answer (changed changes (created path size)),
        files.set path (ending.leaves (changed changes (created path size)))) := by
  have howns := (owns_created path size).changed changes
  set o := changed changes (created path size) with ho
  have hrun : lifetime path size changes ending files =
      ending.run {} o (files.set path (some (zeros size))) :=
    stateBind_of_ok (create_eq path size files) _
  rw [Disk.outcome, hrun]
  cases ending with
  | drop =>
    have hend : End.run {} o .drop (files.set path (some (zeros size))) =
        .ok none (files.set path none) := by
      refine stateBind_eq_ok.mpr ⟨(), _, drop_of_owns howns _, ?_⟩
      rw [Files.set_set]
      rfl
    rw [hend]
    rfl
  | finalize size? =>
    have hend : End.run {} o (.finalize size?) (files.set path (some (zeros size))) =
        .ok none (files.set path (End.leaves o (.finalize size?))) := by
      refine stateBind_eq_ok.mpr ⟨(), _, finalize_of_owns howns size? (Files.set_same ..), ?_⟩
      rw [Files.set_set]
      rfl
    rw [hend]
    rfl
  | intoBytes size? =>
    have hend := intoBytes_of_owns howns size? (files.set path (some (zeros size)))
    rw [Files.update_set] at hend
    have hmap : End.run {} o (.intoBytes size?) (files.set path (some (zeros size))) =
        EStateM.map some (o.intoBytes size?) (files.set path (some (zeros size))) := rfl
    rw [hmap, EStateM.map, hend, End.answer]
    cases o.taken size? <;> rfl

/-- **The file is left unless the output is dropped.**  An output in a file is created, changed and
ended, and the system obeys all calls but those to flush.  In the end the file is there exactly if
the output has been finalized, which succeeds, or turned into bytes, whatever that answers; the
other files are as before.  At every point before, writing fails and changes nothing, or it replaces
exactly the bytes from the offset on. -/
theorem file_left_unless_dropped (path : String) (size : Nat) (changes : List Change)
    (ending : End) (files : Files) :
    let o := changed changes (created path size)
    let left := (lifetime path size changes ending).outcome files
    left.1 = ending.answer o ∧ left.2 path = ending.leaves o ∧
    ((left.2 path).isSome ↔ ending ≠ .drop) ∧ (∀ p, p ≠ path → left.2 p = files p) ∧
    o.path? = some path ∧ o.size = size ∧
    ∀ offset data,
      (size < offset + data.length → writeAt offset data o = .error (o.exceeded offset data) o) ∧
      (offset + data.length ≤ size →
        ∃ o', writeAt offset data o = .ok () o' ∧ Replaced o offset data o') := by
  intro o left
  have howns : Owns path size o := (owns_created path size).changed changes
  have hleft : left = (ending.answer o, files.set path (ending.leaves o)) :=
    lifetime_eq path size changes ending files
  have hfile : left.2 path = ending.leaves o := by
    rw [hleft]
    exact Files.set_same ..
  refine ⟨by rw [hleft], hfile, ?_, fun p hp => ?_, howns.path, howns.size, fun offset data =>
    ⟨fun hlt => writeAt_of_lt (howns.size.symm ▸ hlt),
      fun hle => writeAt_replaces (howns.size.symm ▸ hle)⟩⟩
  · rw [hfile]
    cases ending with
    | drop => simp [End.leaves]
    | finalize size? => cases size? <;> simp [End.leaves]
    | intoBytes => simp [End.leaves]
  · rw [hleft]
    exact Files.set_of_ne hp ..

/-- Bytes in the middle, bytes that do not fit, and a flush that is refused, before the end. -/
theorem file_left_unless_dropped_finalized :
    let changes := [.write 1 [7, 8], .write 3 [9, 9], .flush { flushed := some "No space left" }]
    let o := changed changes (created "classes.dex" 4)
    let left := (lifetime "classes.dex" 4 changes (.finalize (some 6))).outcome fun _ => none
    o.data = [0, 7, 8, 0] ∧ left.1 = .ok none ∧ left.2 "classes.dex" = some [0, 7, 8, 0, 0, 0] ∧
    writeAt 3 [9, 9] o = .error (o.exceeded 3 [9, 9]) o ∧
    ∃ o', writeAt 2 [9, 9] o = .ok () o' ∧ Replaced o 2 [9, 9] o' := by
  intro changes o left
  obtain ⟨hanswer, hfile, -, -, -, -, hwrite⟩ :=
    file_left_unless_dropped "classes.dex" 4 changes (.finalize (some 6)) fun _ => none
  obtain ⟨hrefused, -⟩ := hwrite 3 [9, 9]
  obtain ⟨-, hfits⟩ := hwrite 2 [9, 9]
  exact ⟨rfl, hanswer, hfile, hrefused (by decide), hfits (by decide)⟩

/-- **Turning an output into bytes leaves its file**, both if more bytes are asked for than there
are and if the bytes are answered. -/
theorem intoBytes_leaves_file :
    let left (ending : End) := (lifetime "classes.dex" 4 [] ending).outcome fun _ => none
    ((left (.intoBytes (some 5))).1 =
        .error (.finalization "Requested size 5 exceeds buffer size 4") ∧
      (left (.intoBytes (some 5))).2 "classes.dex" = some [0, 0, 0, 0]) ∧
    (left (.intoBytes none)).1 = .ok (some [0, 0, 0, 0]) ∧
      (left (.intoBytes none)).2 "classes.dex" = some [0, 0, 0, 0] := by
  intro left
  have hleft (ending : End) := lifetime_eq "classes.dex" 4 [] ending fun _ => none
  refine ⟨⟨?_, ?_⟩, ?_, ?_⟩ <;> simp only [left, hleft] <;> rfl

end Output

/-! ## 4. Containers in files -/

/-- **A container is written to a file** as a whole, when the system obeys; if there is none, there
is no new file either. -/
theorem Container.writeFile_eq (options : Container.Options) (path : String)
    (classes : List ClassDef) (files : Files) :
    (Container.writeFile options {} path classes).outcome files =
      match Container.write options classes with
      | .ok bytes => (.ok (), files.set path (some bytes))
      | .error cause => (.error cause, files) := by
  cases hi : Image.ofClasses options classes with
  | error cause =>
    have hwrite : Container.write options classes = .error cause := by
      rw [Container.write, Container.writeWith, hi]
      rfl
    have hfile : Container.writeFile options {} path classes files = .error cause files := by
      refine stateBind_eq_error.mpr (.inl ?_)
      rw [hi]
      rfl
    rw [hwrite, Disk.outcome, hfile]
  | ok i =>
    have hcreated := Output.owns_created path i.size
    obtain ⟨bytes, hassembled, hwrite⟩ : ∃ bytes,
        i.assemble (Output.created path i.size) =
          .ok { Output.created path i.size with data := bytes } ∧
        Container.write options classes = .ok bytes :=
      ⟨_, Container.assemble_of_image hi hcreated.size, Container.write_of_image hi⟩
    have howns : Output.Owns path bytes.length
        { Output.created path i.size with data := bytes } :=
      ⟨rfl, rfl, rfl⟩
    have hfinal := Output.finalize_of_owns howns none
      (Files.set_same path (some (Output.zeros i.size)) files)
    rw [Files.set_set] at hfinal
    have hfile : Container.writeFile options {} path classes files =
        .ok () (files.set path (some bytes)) := by
      refine stateBind_eq_ok.mpr ⟨i, files, by rw [hi]; rfl, ?_⟩
      refine stateBind_eq_ok.mpr ⟨_, _, Output.create_eq path i.size files, ?_⟩
      rw [hassembled]
      exact hfinal
    rw [hwrite, Disk.outcome, hfile]

end Dalvik
