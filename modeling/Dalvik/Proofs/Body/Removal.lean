/-
# Removing an instruction

A removed instruction leaves zeros where its code units were, and the rest of the code as it was:
its fillers stand where it stood, one code unit after the other, and the lines before and after them
are the old ones.  What labels, ranges and handlers resolve to does not change either, so ranges are
resolved, or refused, as before.

Main statement: `remove_blanks`.
-/
import Dalvik.Proofs.Body.Units

namespace Dalvik

namespace Body

variable {b b' : Body}

/-! ## 1. Lines after a removal -/

theorem line?_congr {k : Nat} (hs : b'.slots[k]? = b.slots[k]?) : b'.line? k = b.line? k := by
  rw [line?, line?, hs]

/-- The lines of fillers. -/
def fillerLines (fillers : List Handle) : List Line :=
  fillers.map fun h => ⟨h, .nop⟩

theorem encodeAll_fillerLines (ix : Indexer) (fillers : List Handle) :
    Line.encodeAll ix (fillerLines fillers) = .ok (List.replicate fillers.length 0) := by
  induction fillers with
  | nil => rfl
  | cons h fillers ih => exact Line.encodeAll_cons.mpr ⟨[0], _, rfl, ih, rfl⟩

section Remove

variable {h : Handle} {i : Instruction} {pre post : List Nat}

/-- The fillers that take the place of an instruction. -/
def fillersOf (b : Body) (h : Handle) (i : Instruction) : List Handle :=
  h.next :: Editor.fillerHandles b.slots.size (i.width - 1)

theorem length_fillersOf (b : Body) (h : Handle) (i : Instruction) :
    (b.fillersOf h i).length = i.width := by
  have hpos := i.width_pos
  simp only [fillersOf, Editor.fillerHandles, List.length_cons, List.length_map,
    List.length_range']
  omega

theorem lines_place (hi : b.get h = .ok i) :
    (h.index :: List.range' b.slots.size (i.width - 1)).filterMap
      (Editor.removed b h i.width pre post).line? = fillerLines (b.fillersOf h i) := by
  have hnext : (Editor.removed b h i.width pre post).line? h.index = some ⟨h.next, .nop⟩ :=
    line?_eq_some.mpr ⟨rfl, get_removed_next hi _⟩
  have hrest : ∀ k ∈ List.range' b.slots.size (i.width - 1),
      (Editor.removed b h i.width pre post).line? k = some ⟨{ index := k }, .nop⟩ := fun k hk =>
    line?_eq_some.mpr ⟨rfl, get_removed_filler hk⟩
  rw [List.filterMap_cons_some hnext, List.filterMap_congr hrest, List.filterMap_eq_map', fillersOf,
    fillerLines, List.map_cons, Editor.fillerHandles, List.map_map]
  rfl

/-- **Only the line of the instruction is replaced.** -/
theorem lines_removed (hb : b.Sound) (hi : b.get h = .ok i)
    (ho : b.order.toList = pre ++ h.index :: post) :
    (Editor.removed b h i.width pre post).lines =
      pre.filterMap b.line? ++ (fillerLines (b.fillersOf h i) ++ post.filterMap b.line?) := by
  have hline (k : Nat) (hk : k ∈ pre ∨ k ∈ post) :
      (Editor.removed b h i.width pre post).line? k = b.line? k :=
    line?_congr (removed_slots_around hb ho _ hk)
  rw [lines, removed_order, List.append_assoc, List.filterMap_append, List.filterMap_append,
    lines_place hi, List.filterMap_congr fun k hk => hline k (.inl hk),
    List.filterMap_congr fun k hk => hline k (.inr hk)]

/-- The fillers begin where the instruction began, each one code unit after the last. -/
theorem offsetOf_filler (hb : b.Sound) (hi : b.get h = .ok i)
    (ho : b.order.toList = pre ++ h.index :: post) {k : Nat} {f : Handle}
    (hf : (b.fillersOf h i)[k]? = some f) :
    (Editor.removed b h i.width pre post).get f = .ok .nop ∧
      (Editor.removed b h i.width pre post).offsetOf f = .ok (b.before h.index + k) := by
  suffices hplace : (Editor.removed b h i.width pre post).get f = .ok .nop ∧
      (Editor.removed b h i.width pre post).before f.index = b.before h.index + k from
    ⟨hplace.1, (offsetOf_eq_ok (hb.removed ho)).mpr ⟨⟨_, hplace.1⟩, hplace.2⟩⟩
  cases k with
  | zero =>
    obtain rfl := Option.some.inj hf
    exact ⟨get_removed_next hi _, before_removed hb hi ho (index_lt (h := h) ⟨i, hi⟩)⟩
  | succ j =>
    rw [fillersOf, List.getElem?_cons_succ, Editor.fillerHandles, List.getElem?_map] at hf
    obtain ⟨n, hn, rfl⟩ := Option.map_eq_some_iff.mp hf
    obtain ⟨hj, rfl⟩ := List.getElem?_eq_some_iff.mp hn
    rw [List.length_range'] at hj
    rw [List.getElem_range', Nat.one_mul]
    exact ⟨get_removed_filler (List.mem_range'_1.mpr (by omega)), before_filler hb hi ho hj⟩

end Remove

/-! ## 2. Ranges that follow -/

theorem resolveHandlers_congr {handlers handlers' : List CatchHandler}
    (h : List.Forall₂ (fun c c' => c'.type? = c.type? ∧ b'.offsetOf c'.target = b.offsetOf c.target)
      handlers handlers') : b'.resolveHandlers handlers' = b.resolveHandlers handlers := by
  induction h with
  | nil => rfl
  | @cons c c' rest rest' hc hrest ih =>
    rw [resolveHandlers, resolveHandlers, hc.1, hc.2]
    cases c.type? with
    | some type => simp only [ih]
    | none =>
      -- both handlers are the last one, or neither is
      cases hrest <;> rfl

/-- **A range that follows is resolved, or refused, as before.** -/
theorem Keeps.resolveTry (hb : b.Anchored) (hb' : b'.Anchored) (hk : Keeps b b')
    (hc : b'.codeUnits = b.codeUnits) {t t' : TryRange} (ht : t ∈ b.tries) (ht' : t' ∈ b'.tries)
    (hf : Follows b b' t t') : b'.resolveTry t' = b.resolveTry t := by
  have hslots := forall₂_of_handlerSlots hf.handlers
  have hfirst := index_lt (hb.first_live ht)
  have hbounds : b'.tryBounds t' = b.tryBounds t := by
    rw [hb'.tryBounds ht', hb.tryBounds ht, hf.first, hf.last, hk.before_eq hfirst]
  have hempty : t'.handlers.isEmpty = t.handlers.isEmpty := by
    rw [Bool.eq_iff_iff, List.isEmpty_iff_length_eq_zero, List.isEmpty_iff_length_eq_zero,
      hslots.length_eq]
  have hhandlers : b'.resolveHandlers t'.handlers = b.resolveHandlers t.handlers := by
    refine resolveHandlers_congr (hslots.imp fun c c' hcc => ?_)
    obtain ⟨hmem, hmem', htype, hindex⟩ := hcc
    have hlive := hb.target_live ht hmem
    have hlive' := hb'.target_live ht' hmem'
    rw [hlive'.offsetOf hb'.sound, hlive.offsetOf hb.sound, hindex, hk.before_eq (index_lt hlive)]
    exact ⟨htype, rfl⟩
  rw [Body.resolveTry, Body.resolveTry, hbounds, hc, hempty, hhandlers]

theorem resolveTries_removed (hb : b.Anchored) {h : Handle} {i : Instruction}
    {pre post : List Nat} (hi : b.get h = .ok i) (ho : b.order.toList = pre ++ h.index :: post) :
    (Editor.removed b h i.width pre post).resolveTries = b.resolveTries := by
  obtain ⟨ha, hk⟩ := removed_keeps hb hi ho
  have hc := codeUnits_removed hb.sound hi ho
  have hall : ∀ t ∈ b.tries, (Editor.removed b h i.width pre post).resolveTry
      (movedTry h h.next (Editor.lastFiller h b.slots.size i.width) t) = b.resolveTry t := by
    intro t ht
    refine hk.resolveTry hb ha hc ht (List.mem_map_of_mem ht) ⟨moved_next_index _ _, ?_, ?_⟩
    · exact finish_moved hb.sound hi ho (hb.last_live ht)
    · exact handlerSlots_movedTry _ _ _
  have htries : (Editor.removed b h i.width pre post).tries =
      b.tries.map (movedTry h h.next (Editor.lastFiller h b.slots.size i.width)) := rfl
  rw [resolveTries, resolveTries, htries, List.mapM_map]
  exact congrArg (· >>= _) (mapM_congr hall)

/-! ## 3. Code units after a removal -/

theorem encode_removed (hb : b.Sound) (hs : b.Shaped) {h : Handle} {i : Instruction}
    {pre post : List Nat} (hi : b.get h = .ok i) (ho : b.order.toList = pre ++ h.index :: post)
    {ix : Indexer} {units : List UInt16} (he : b.encode ix = .ok units) :
    b.before h.index + i.width ≤ units.length ∧
      (Editor.removed b h i.width pre post).encode ix =
        .ok (units.take (b.before h.index) ++ List.replicate i.width 0 ++
          units.drop (b.before h.index + i.width)) := by
  obtain ⟨before, part, after, hbefore, -, hafter, rfl, hfront, hwidth⟩ :=
    encode_split hb hs hi ho he
  have hfill := encodeAll_fillerLines ix (b.fillersOf h i)
  rw [length_fillersOf] at hfill
  constructor
  · rw [List.length_append, List.length_append]
    omega
  · rw [encode_eq_ok, lines_removed hb hi ho, Line.encodeAll_append]
    refine ⟨before, _, hbefore, Line.encodeAll_append.mpr ⟨_, after, hfill, hafter, rfl⟩, ?_⟩
    rw [← hfront, ← hwidth, List.take_left, ← List.append_assoc before part, ← List.length_append,
      List.drop_left, List.append_assoc]

/-- **Removing blanks the code units of an instruction and nothing else.**  Whatever calls led to a
body of instructions that were built or read: a live instruction is removed, and as many fillers as
it was wide take its place, one code unit after the other from its offset on.  If the code could be
encoded, it still can, with zeros where the instruction was and the same units before and after.
Ranges are resolved, or refused, as before. -/
theorem remove_blanks (hb : b.Made) {h : Handle} (hl : b.Live h) :
    ∃ i offset b' fillers, b.get h = .ok i ∧ b.offsetOf h = .ok offset ∧
      b.remove h = .ok (b', fillers) ∧ fillers.length = i.width ∧
      (∀ (k : Nat) f, fillers[k]? = some f →
        b'.get f = .ok .nop ∧ b'.offsetOf f = .ok (offset + k)) ∧
      (∀ ix units, b.encode ix = .ok units → offset + i.width ≤ units.length ∧
        b'.encode ix = .ok (units.take offset ++ List.replicate i.width 0 ++
          units.drop (offset + i.width))) ∧
      b'.resolveTries = b.resolveTries := by
  have ha := hb.reachable.anchored
  obtain ⟨pre, post, ho⟩ := ha.sound.exists_split hl
  obtain ⟨i, hi⟩ := hl
  have hrun := ha.sound.remove_eq hi ho
  refine ⟨i, b.before h.index, Editor.removed b h i.width pre post, b.fillersOf h i, hi,
    Live.offsetOf ha.sound ⟨i, hi⟩, Editor.outcome_eq_ok.mpr hrun, length_fillersOf b h i, ?_, ?_,
    resolveTries_removed ha hi ho⟩
  · exact fun k f hf => offsetOf_filler ha.sound hi ho hf
  · exact fun ix units he => encode_removed ha.sound hb.shaped hi ho he

/-- A jump of two code units before the end of a method, which is labelled and handles what the jump
throws. -/
def jumpToEnd : Body :=
  let jump : Instruction := { opcode := 0x29, format := .f20t, operand := .branch 2 }
  let leave : Instruction := { opcode := 0x0e, format := .f10x }
  (ofInstructions [jump, leave]).after
    [.addLabel "end" ⟨1, 0⟩,
      .addTry { first := ⟨0, 0⟩, last := ⟨0, 0⟩, handlers := [⟨none, ⟨1, 0⟩⟩] }]

theorem remove_blanks_jumpToEnd :
    ∃ b' fillers, jumpToEnd.remove ⟨0, 0⟩ = .ok (b', fillers) ∧ fillers.length = 2 ∧
      jumpToEnd.encode Indexer.rawIndices = .ok [0x0029, 0x0002, 0x000e] ∧
      b'.encode Indexer.rawIndices = .ok [0x0000, 0x0000, 0x000e] ∧
      b'.resolveTries = .ok [⟨0, 2, { catchAll := some 2 }⟩] := by
  have hjump : Instruction.build? 0x29 [] (.branch 2) =
      .ok { opcode := 0x29, format := .f20t, operand := .branch 2 } := by decide +kernel
  have hleave : Instruction.build? 0x0e [] .none =
      .ok { opcode := 0x0e, format := .f10x } := by decide +kernel
  have hmade : jumpToEnd.Made := by
    refine (Made.ofInstructions ?_).after ?_
    · simp only [List.forall_mem_cons, List.not_mem_nil, false_implies, implies_true, and_true]
      exact ⟨.built (.checked hjump), .built (.checked hleave)⟩
    · simp
  have hget : jumpToEnd.get ⟨0, 0⟩ =
      .ok { opcode := 0x29, format := .f20t, operand := .branch 2 } := by decide +kernel
  have hoffset : jumpToEnd.offsetOf ⟨0, 0⟩ = .ok 0 := by decide +kernel
  have hunits : jumpToEnd.encode Indexer.rawIndices = .ok [0x0029, 0x0002, 0x000e] := by rfl
  have htries : jumpToEnd.resolveTries = .ok [⟨0, 2, { catchAll := some 2 }⟩] := by
    decide +kernel
  obtain ⟨i, offset, b', fillers, hi, ho, hrun, hlength, -, hencode, hresolve⟩ :=
    remove_blanks hmade ⟨_, hget⟩
  obtain rfl := Except.ok.inj (hget.symm.trans hi)
  obtain rfl := Except.ok.inj (hoffset.symm.trans ho)
  exact ⟨b', fillers, hrun, hlength, hunits, (hencode _ _ hunits).2, hresolve.trans htries⟩

end Body

end Dalvik
