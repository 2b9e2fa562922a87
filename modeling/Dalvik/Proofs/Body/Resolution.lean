/-
# Which ranges can be resolved

A stored range is resolved exactly if it has a handler, its last instruction does not come before
its first, it covers no more than 65535 code units, and nothing follows a handler that catches
everything.  Offsets that fit 32 bits are the only assumption.  Ranges are resolved one by one in
the order in which they were added, so the first that has a fault decides what is reported.

* `Resolvable`, `Fault`: the conditions on a range, and what is said of one that breaks them;
* `ResolvesTo`: what a range is resolved to;
* `ranges_resolve_or_first_fault`: the main statement.
-/
import Dalvik.Proofs.Body.ProgramOrder
import Dalvik.Proofs.Body.Ranges

namespace Dalvik

/-! ## 1. Ranges that can be resolved -/

namespace Body

/-- The offset just after an instruction. -/
def stopOf (b : Body) (h : Handle) : Except Error Nat := do
  return (← b.offsetOf h) + (← b.get h).width

/-- A range that can be written. -/
structure Resolvable (b : Body) (t : TryRange) : Prop where
  handled : t.handlers ≠ []
  forward : b.AtOrBefore t.first t.last
  short : ∃ start stop, b.offsetOf t.first = .ok start ∧ b.stopOf t.last = .ok stop ∧
    stop ≤ start + 0xFFFF
  catchAll_last : ∀ c ∈ t.handlers.dropLast, c.type? ≠ none

/-- What is wrong with a range, in words: the first of its faults, in the order of the cases. -/
inductive Fault (b : Body) (t : TryRange) : String → Prop
  | backward {start last : Nat} (hb : b.tryBounds t = .ok (start, last))
      (hf : ¬b.AtOrBefore t.first t.last) :
      Fault b t s!"{rangeText start last} outside {b.codeUnits} code units"
  | unhandled {start last : Nat} (hb : b.tryBounds t = .ok (start, last))
      (hf : b.AtOrBefore t.first t.last) (hh : t.handlers = []) :
      Fault b t s!"{rangeText start last} has no handlers"
  | long {start last : Nat} (hb : b.tryBounds t = .ok (start, last))
      (hf : b.AtOrBefore t.first t.last) (hh : t.handlers ≠ []) (hl : start + 0xFFFF ≤ last) :
      Fault b t s!"{rangeText start last} is too long"
  | shadowing {start last : Nat} (hb : b.tryBounds t = .ok (start, last))
      (hf : b.AtOrBefore t.first t.last) (hl : last < start + 0xFFFF)
      {front back : List CatchHandler} {c : CatchHandler} {address : Nat}
      (hh : t.handlers = front ++ c :: back) (hfront : ∀ d ∈ front, d.type? ≠ none)
      (hc : c.type? = none) (hback : back ≠ []) (ho : b.offsetOf c.target = .ok address) :
      Fault b t s!"catch-all handler at 0x{Text.hex address} is not the last handler"

/-- What a range is resolved to: the code units from the start of its first instruction to the end
of its last, and its handlers in their order, at the offsets of their instructions. -/
structure ResolvesTo (b : Body) (t : TryRange) (r : ResolvedTry) : Prop where
  start : b.offsetOf t.first = .ok r.start.toNat
  stop : b.stopOf t.last = .ok (r.start.toNat + r.count.toNat)
  inside : r.start.toNat + r.count.toNat ≤ b.codeUnits
  handlers : List.Forall₂ (fun c entry => entry.1 = c.type? ∧
    b.offsetOf c.target = .ok entry.2.toNat) t.handlers r.handlers.entries
  catchAll : r.handlers.catchAll.isSome ↔ ∃ c, t.handlers.getLast? = some c ∧ c.type? = none
  addresses : ∀ entry ∈ r.handlers.entries, entry.2.toNat < b.codeUnits

section Bounds

variable {b : Body} {t : TryRange} {h : Handle}

theorem Live.stopOf (hb : b.Sound) (hl : b.Live h) : b.stopOf h = .ok (b.finish h.index) := by
  have ho := hl.offsetOf hb
  obtain ⟨i, hi⟩ := hl
  refine bind_eq_ok.mpr ⟨_, ho, bind_eq_ok.mpr ⟨i, hi, ?_⟩⟩
  rw [finish, slotWidth_of_get hi]
  rfl

theorem Live.before_lt_codeUnits (hb : b.Sound) (hl : b.Live h) :
    b.before h.index < b.codeUnits :=
  Nat.lt_of_lt_of_le hl.before_lt_finish (hl.finish_le hb)

/-- The conditions on a range, by slots. -/
theorem Anchored.resolvable_iff (hb : b.Anchored) (ht : t ∈ b.tries) :
    b.Resolvable t ↔ t.handlers ≠ [] ∧ b.before t.first.index < b.finish t.last.index ∧
      b.finish t.last.index ≤ b.before t.first.index + 0xFFFF ∧
        ∀ c ∈ t.handlers.dropLast, c.type? ≠ none := by
  have hfirst := hb.first_live ht
  have hlast := hb.last_live ht
  have hforward := hb.sound.atOrBefore_iff_lt hfirst hlast
  constructor
  · rintro ⟨hhandled, hf, ⟨start, stop, hstart, hstop, hshort⟩, hcatch⟩
    obtain rfl := Except.ok.inj ((hfirst.offsetOf hb.sound).symm.trans hstart)
    obtain rfl := Except.ok.inj ((hlast.stopOf hb.sound).symm.trans hstop)
    exact ⟨hhandled, hforward.mp hf, hshort, hcatch⟩
  · rintro ⟨hhandled, hf, hshort, hcatch⟩
    exact ⟨hhandled, hforward.mpr hf,
      ⟨_, _, hfirst.offsetOf hb.sound, hlast.stopOf hb.sound, hshort⟩, hcatch⟩

end Bounds

/-! ## 2. Handlers -/

section Handlers

variable {b : Body} {handlers : List CatchHandler}

theorem narrow32_before (hb : b.Sound) (hc : b.codeUnits < 0x100000000) {h : Handle}
    (hl : b.Live h) : ∃ address : UInt32,
      Bytes.narrow32 (b.before h.index) = .ok address ∧ address.toNat = b.before h.index := by
  have hlt := Nat.lt_trans (hl.before_lt_codeUnits hb) hc
  have hok : Bytes.narrow32 (b.before h.index) = .ok (b.before h.index).toUInt32 := if_pos hlt
  exact ⟨_, hok, Bytes.narrow32_eq_ok hok⟩

/-- Handlers of which only the last may catch everything. -/
theorem Sound.resolveHandlers_eq_ok (hb : b.Sound) (hc : b.codeUnits < 0x100000000)
    (hl : ∀ c ∈ handlers, b.Live c.target) (hlast : ∀ c ∈ handlers.dropLast, c.type? ≠ none) :
    ∃ list, b.resolveHandlers handlers = .ok list := by
  induction handlers with
  | nil => exact ⟨{}, rfl⟩
  | cons c rest ih =>
    rw [List.forall_mem_cons] at hl
    obtain ⟨address, haddress, -⟩ := narrow32_before hb hc hl.1
    cases htype : c.type? with
    | some type =>
      have hrest : ∀ d ∈ rest.dropLast, d.type? ≠ none := by
        intro d hd
        have hne : rest ≠ [] := by
          rintro rfl
          simp at hd
        refine hlast d ?_
        rw [List.dropLast_cons_of_ne_nil hne]
        exact List.mem_cons_of_mem c hd
      obtain ⟨list, hlist⟩ := ih hl.2 hrest
      refine ⟨{ list with typed := (type, address) :: list.typed }, ?_⟩
      rw [resolveHandlers]
      refine bind_eq_ok.mpr ⟨_, hl.1.offsetOf hb, bind_eq_ok.mpr ⟨address, haddress, ?_⟩⟩
      rw [htype]
      exact bind_eq_ok.mpr ⟨list, hlist, rfl⟩
    | none =>
      cases rest with
      | nil =>
        refine ⟨{ catchAll := some address }, ?_⟩
        rw [resolveHandlers]
        refine bind_eq_ok.mpr ⟨_, hl.1.offsetOf hb, bind_eq_ok.mpr ⟨address, haddress, ?_⟩⟩
        rw [htype]
        rfl
      | cons d rest => exact absurd htype (hlast c (by simp))

/-- A handler that catches everything and is not the last. -/
theorem Sound.resolveHandlers_eq_error (hb : b.Sound) (hc : b.codeUnits < 0x100000000)
    {front back : List CatchHandler} {c : CatchHandler} {address : Nat}
    (hl : ∀ d ∈ front ++ c :: back, b.Live d.target) (hfront : ∀ d ∈ front, d.type? ≠ none)
    (hnone : c.type? = none) (hback : back ≠ []) (ho : b.offsetOf c.target = .ok address) :
    b.resolveHandlers (front ++ c :: back) = .error (.malformedTryRange
      s!"catch-all handler at 0x{Text.hex address} is not the last handler") := by
  induction front with
  | nil =>
    rw [List.nil_append, List.forall_mem_cons] at hl
    obtain ⟨narrowed, hnarrow, hvalue⟩ := narrow32_before hb hc hl.1
    obtain rfl := Except.ok.inj ((hl.1.offsetOf hb).symm.trans ho)
    rw [List.nil_append, resolveHandlers, ho]
    simp only [bind, Except.bind, hnarrow, hnone]
    cases back with
    | nil => exact absurd rfl hback
    | cons d back =>
      rw [hvalue]
      rfl
  | cons d front ih =>
    rw [List.cons_append, List.forall_mem_cons] at hl
    rw [List.forall_mem_cons] at hfront
    obtain ⟨narrowed, hnarrow, -⟩ := narrow32_before hb hc hl.1
    obtain ⟨type, htype⟩ := Option.ne_none_iff_exists'.mp hfront.1
    rw [List.cons_append, resolveHandlers, hl.1.offsetOf hb]
    simp only [bind, Except.bind, hnarrow, htype, ih hl.2 hfront.2]

/-- The last of the handlers catches everything if and only if one is kept apart as doing so. -/
theorem isSome_catchAll_iff {list : HandlerList}
    (h : List.Forall₂ (fun c entry => entry.1 = c.type?) handlers list.entries) :
    list.catchAll.isSome ↔ ∃ c, handlers.getLast? = some c ∧ c.type? = none := by
  have htypes : list.entries.map (·.1) = handlers.map (·.type?) := by
    rw [← List.forall₂_eq_eq_eq, List.forall₂_map_left_iff, List.forall₂_map_right_iff]
    exact h.flip
  have hlast : list.catchAll.isSome ↔ (list.entries.map (·.1)).getLast? = some none := by
    cases hc : list.catchAll with
    | some address => simp [HandlerList.entries, hc]
    | none => simp [HandlerList.entries, hc, List.getLast?_map]
  rw [hlast, htypes, List.getLast?_map, Option.map_eq_some_iff]

end Handlers

/-! ## 3. Ranges -/

section Ranges

variable {b : Body} {t : TryRange}

/-- A range with no fault is resolved. -/
theorem Anchored.resolveTry_of_resolvable (hb : b.Anchored) (hc : b.codeUnits < 0x100000000)
    (ht : t ∈ b.tries) (hr : b.Resolvable t) : ∃ r, b.resolveTry t = .ok r := by
  have hfirst := hb.first_live ht
  have hbegins := hfirst.before_lt_codeUnits hb.sound
  obtain ⟨hhandled, hforward, hshort, hcatch⟩ := (hb.resolvable_iff ht).mp hr
  obtain ⟨start, hstart, -⟩ := narrow32_before hb.sound hc hfirst
  obtain ⟨list, hlist⟩ := hb.sound.resolveHandlers_eq_ok hc (fun _ => hb.target_live ht) hcatch
  exact ⟨⟨start, _, list⟩, resolveTry_eq_ok.mpr ⟨_, _, hb.tryBounds ht, hbegins, by omega,
    by omega, hhandled, hstart, rfl, hlist⟩⟩

/-- What is resolved is resolved to its bounds and its handlers, however wide the code is. -/
theorem Anchored.resolvesTo (hb : b.Anchored) (ht : t ∈ b.tries) {r : ResolvedTry}
    (h : b.resolveTry t = .ok r) : b.ResolvesTo t r := by
  have hfirst := hb.first_live ht
  have hlast := hb.last_live ht
  have hpos := hlast.before_lt_finish
  obtain ⟨start, last, hbounds, hinside, hforward, hshort, -, haddress, hcount, hhandlers⟩ :=
    resolveTry_eq_ok.mp h
  obtain ⟨rfl, rfl⟩ := Prod.mk.inj (Except.ok.inj (hbounds.symm.trans (hb.tryBounds ht)))
  have hstart := Bytes.narrow32_eq_ok haddress
  have hlength : r.count.toNat = b.finish t.last.index - 1 - b.before t.first.index + 1 := by
    rw [← hcount]
    exact toNat_toUInt16 (by omega)
  have hstop : r.start.toNat + r.count.toNat = b.finish t.last.index := by omega
  have hentries := entries_of_resolveHandlers hhandlers
  refine ⟨?_, ?_, ?_, hentries, ?_, ?_⟩
  · rw [hstart]
    exact hfirst.offsetOf hb.sound
  · rw [hstop]
    exact hlast.stopOf hb.sound
  · rw [hstop]
    exact hlast.finish_le hb.sound
  · exact isSome_catchAll_iff (hentries.imp fun _ _ hentry => hentry.1)
  · intro entry he
    obtain ⟨c, hm, -, ho⟩ := exists_of_mem_left hentries.flip entry he
    rw [((offsetOf_eq_ok hb.sound).mp ho).2.symm]
    exact (hb.target_live ht hm).before_lt_codeUnits hb.sound

/-- A range with a fault is refused, in the words of the fault. -/
theorem Anchored.resolveTry_of_fault (hb : b.Anchored) (hc : b.codeUnits < 0x100000000)
    (ht : t ∈ b.tries) {reason : String} (hf : b.Fault t reason) :
    b.resolveTry t = .error (.malformedTryRange reason) := by
  have hfirst := hb.first_live ht
  have hlast := hb.last_live ht
  have hforward := hb.sound.atOrBefore_iff_lt hfirst hlast
  have hbegins := hfirst.before_lt_codeUnits hb.sound
  have hends := hlast.before_lt_finish
  obtain ⟨address, haddress, -⟩ := narrow32_before hb.sound hc hfirst
  have hstart {start last : Nat} (hbounds : b.tryBounds t = .ok (start, last)) :
      start = b.before t.first.index ∧ last = b.finish t.last.index - 1 := by
    have hsame := Except.ok.inj (hbounds.symm.trans (hb.tryBounds ht))
    exact Prod.mk.inj hsame
  have htargets : ∀ c ∈ t.handlers, b.Live c.target := fun _ => hb.target_live ht
  cases hf with
  | backward hbounds hn =>
    obtain ⟨rfl, rfl⟩ := hstart hbounds
    rw [hforward] at hn
    rw [resolveTry_eq hbounds haddress, if_pos (by omega)]
  | unhandled hbounds ho hh =>
    obtain ⟨rfl, rfl⟩ := hstart hbounds
    rw [hforward] at ho
    rw [resolveTry_eq hbounds haddress, if_neg (by omega), if_pos hh]
  | long hbounds ho hh hl =>
    obtain ⟨rfl, rfl⟩ := hstart hbounds
    rw [hforward] at ho
    rw [resolveTry_eq hbounds haddress, if_neg (by omega), if_neg hh, if_pos hl]
  | shadowing hbounds ho hl hh hfront hnone hback htarget =>
    obtain ⟨rfl, rfl⟩ := hstart hbounds
    rw [hforward] at ho
    rw [hh] at htargets
    rw [resolveTry_eq hbounds haddress, if_neg (by omega), if_neg (by simp [hh]),
      if_neg (by omega), hh,
      hb.sound.resolveHandlers_eq_error hc htargets hfront hnone hback htarget]
    rfl

theorem exists_shadowing {handlers : List CatchHandler}
    (h : ¬∀ c ∈ handlers.dropLast, c.type? ≠ none) : ∃ front c back,
      handlers = front ++ c :: back ∧ (∀ d ∈ front, d.type? ≠ none) ∧ c.type? = none ∧
        back ≠ [] := by
  induction handlers with
  | nil => simp at h
  | cons d rest ih =>
    have hne : rest ≠ [] := by
      rintro rfl
      simp at h
    rw [List.dropLast_cons_of_ne_nil hne, List.forall_mem_cons] at h
    by_cases hd : d.type? = none
    · exact ⟨[], d, rest, rfl, by simp, hd, hne⟩
    · obtain ⟨front, c, back, rfl, hfront, hc, hback⟩ := ih fun hall => h ⟨hd, hall⟩
      exact ⟨d :: front, c, back, rfl, List.forall_mem_cons.mpr ⟨hd, hfront⟩, hc, hback⟩

/-- A range that breaks a condition has a fault. -/
theorem Anchored.exists_fault (hb : b.Anchored) (ht : t ∈ b.tries) (hn : ¬b.Resolvable t) :
    ∃ reason, b.Fault t reason := by
  have hfirst := hb.first_live ht
  have hlast := hb.last_live ht
  have hforward := hb.sound.atOrBefore_iff_lt hfirst hlast
  have hbounds := hb.tryBounds ht
  rw [hb.resolvable_iff ht] at hn
  by_cases hf : b.AtOrBefore t.first t.last
  · by_cases hh : t.handlers = []
    · exact ⟨_, .unhandled hbounds hf hh⟩
    · have hlt := hforward.mp hf
      by_cases hl : b.before t.first.index + 0xFFFF ≤ b.finish t.last.index - 1
      · exact ⟨_, .long hbounds hf hh hl⟩
      · obtain ⟨front, c, back, hsplit, hfront, hc, hback⟩ := exists_shadowing fun hcatch =>
          hn ⟨hh, hlt, by omega, hcatch⟩
        have hlive := hb.target_live ht (c := c) (by rw [hsplit]; simp)
        exact ⟨_, .shadowing hbounds hf (by omega) hsplit hfront hc hback
          (hlive.offsetOf hb.sound)⟩
  · exact ⟨_, .backward hbounds hf⟩

/-- Only ranges with no fault are resolved. -/
theorem Anchored.resolvable_of_resolveTry (hb : b.Anchored) (hc : b.codeUnits < 0x100000000)
    (ht : t ∈ b.tries) {r : ResolvedTry} (h : b.resolveTry t = .ok r) : b.Resolvable t := by
  by_contra hn
  obtain ⟨reason, hf⟩ := hb.exists_fault ht hn
  rw [hb.resolveTry_of_fault hc ht hf] at h
  cases h

/-- Only ranges with a fault are refused. -/
theorem Anchored.fault_of_resolveTry (hb : b.Anchored) (hc : b.codeUnits < 0x100000000)
    (ht : t ∈ b.tries) {cause : Error} (h : b.resolveTry t = .error cause) :
    ¬b.Resolvable t ∧ ∃ reason, b.Fault t reason ∧ cause = .malformedTryRange reason := by
  have hn : ¬b.Resolvable t := by
    intro hr
    obtain ⟨r, hok⟩ := hb.resolveTry_of_resolvable hc ht hr
    rw [hok] at h
    cases h
  obtain ⟨reason, hf⟩ := hb.exists_fault ht hn
  exact ⟨hn, reason, hf, Except.error.inj (h.symm.trans (hb.resolveTry_of_fault hc ht hf))⟩

end Ranges

/-! ## 4. All ranges of a body -/

/-- **Ranges resolve, or the first that cannot decides.**  In any body that calls lead to, of fewer
than 2 ^ 32 code units, the ranges are resolved exactly if each of them has a handler, does not end
before it starts, covers at most 65535 code units and has nothing after a handler that catches
everything.  The result is then what each range resolves to, sorted by start, with ranges that start
together in the order in which they were added.  Otherwise the first range in that order that breaks
a condition is refused, for the first of its faults. -/
theorem ranges_resolve_or_first_fault {b : Body} (hb : b.Reachable)
    (hc : b.codeUnits < 0x100000000) :
    ((∃ resolved, b.resolveTries = .ok resolved) ↔ ∀ t ∈ b.tries, b.Resolvable t) ∧
    (∀ resolved, b.resolveTries = .ok resolved → ∃ ranges : List ResolvedTry,
      List.Forall₂ b.ResolvesTo b.tries ranges ∧ StablySorted (·.start) ranges resolved) ∧
    ((¬∀ t ∈ b.tries, b.Resolvable t) → ∃ before t after reason,
      b.tries = before ++ t :: after ∧ (∀ s ∈ before, b.Resolvable s) ∧ ¬b.Resolvable t ∧
        b.Fault t reason ∧ b.resolveTries = .error (.malformedTryRange reason)) := by
  have ha := hb.anchored
  have hresolvable {t : TryRange} (ht : t ∈ b.tries) : (∃ r, b.resolveTry t = .ok r) →
      b.Resolvable t := by
    rintro ⟨r, hr⟩
    exact ha.resolvable_of_resolveTry hc ht hr
  refine ⟨⟨?_, ?_⟩, ?_, ?_⟩
  · rintro ⟨resolved, h⟩ t ht
    exact hresolvable ht (ok_of_resolveTries h t ht)
  · intro h
    obtain ⟨ranges, hm⟩ := mapM_ok fun t ht => ha.resolveTry_of_resolvable hc ht (h t ht)
    exact ⟨_, resolveTries_eq_ok.mpr ⟨ranges, hm, rfl⟩⟩
  · intro resolved h
    obtain ⟨ranges, hm, rfl⟩ := resolveTries_eq_ok.mp h
    have hpairs := (List.forall₂_and_left _ _).mpr ⟨fun t ht => ht, mapM_eq_ok.mp hm⟩
    refine ⟨ranges, hpairs.imp ?_, stablySorted_mergeSort _ _⟩
    rintro t r ⟨ht, hr⟩
    exact ha.resolvesTo ht hr
  · intro hn
    cases hm : b.tries.mapM b.resolveTry with
    | ok ranges => exact absurd (fun t ht => hresolvable ht (ok_of_mapM hm t ht)) hn
    | error cause =>
      obtain ⟨before, t, after, htries, hbefore, hcause⟩ := mapM_eq_error.mp hm
      have hmem {s : TryRange} (hs : s ∈ before ++ t :: after) : s ∈ b.tries := htries ▸ hs
      obtain ⟨hfaulty, reason, hf, rfl⟩ := ha.fault_of_resolveTry hc (hmem (by simp)) hcause
      refine ⟨before, t, after, reason, htries, fun s hs => ?_, hfaulty, hf, ?_⟩
      · exact hresolvable (hmem (List.mem_append_left _ hs)) (hbefore s hs)
      · rw [resolveTries, hm]
        rfl

/-- A jump, an instruction that does nothing and the end of a method, under two ranges that overlap,
the one that starts later added first; then the jump is removed. -/
def crossedRanges : Body :=
  let jump : Instruction := { opcode := 0x29, format := .f20t, operand := .branch 2 }
  let leave : Instruction := { opcode := 0x0e, format := .f10x }
  (ofInstructions [jump, .nop, leave]).after
    [.addTry ⟨⟨1, 0⟩, ⟨2, 0⟩, [⟨some "LE;", ⟨2, 0⟩⟩, ⟨none, ⟨0, 0⟩⟩]⟩,
      .addTry ⟨⟨0, 0⟩, ⟨1, 0⟩, [⟨none, ⟨2, 0⟩⟩]⟩,
      .remove ⟨0, 0⟩]

/-- The same with a range that ends before it starts, and one without handlers. -/
def reversedRange : Body :=
  crossedRanges.after [.addTry ⟨⟨2, 0⟩, ⟨1, 0⟩, [⟨none, ⟨2, 0⟩⟩]⟩, .addTry ⟨⟨1, 0⟩, ⟨1, 0⟩, []⟩]

theorem ranges_resolve_or_first_fault_crossedRanges :
    crossedRanges.resolveTries = .ok [⟨0, 3, { catchAll := some 3 }⟩,
      ⟨2, 2, { typed := [("LE;", 3)], catchAll := some 0 }⟩] ∧
    (∀ t ∈ crossedRanges.tries, crossedRanges.Resolvable t) ∧
    reversedRange.resolveTries =
      .error (.malformedTryRange "range 0x3..=0x2 outside 4 code units") ∧
    ∃ t ∈ reversedRange.tries, reversedRange.Fault t "range 0x3..=0x2 outside 4 code units" := by
  have hcrossed : crossedRanges.Reachable := (Reachable.ofInstructions _).after _
  have hreversed : reversedRange.Reachable := hcrossed.after _
  have hranges : crossedRanges.tries.mapM crossedRanges.resolveTry =
      .ok [⟨2, 2, { typed := [("LE;", 3)], catchAll := some 0 }⟩,
        ⟨0, 3, { catchAll := some 3 }⟩] := by decide +kernel
  have hresolved : crossedRanges.resolveTries = .ok [⟨0, 3, { catchAll := some 3 }⟩,
      ⟨2, 2, { typed := [("LE;", 3)], catchAll := some 0 }⟩] := by
    refine resolveTries_eq_ok.mpr ⟨_, hranges, ?_⟩
    rw [mergeSort_eq_sortUpTo]
    decide +kernel
  have hfault : reversedRange.resolveTries =
      .error (.malformedTryRange "range 0x3..=0x2 outside 4 code units") := by decide +kernel
  obtain ⟨hiff, -, -⟩ := ranges_resolve_or_first_fault hcrossed (by decide +kernel)
  obtain ⟨hiff', -, hfirst⟩ := ranges_resolve_or_first_fault hreversed (by decide +kernel)
  have hnot : ¬∀ t ∈ reversedRange.tries, reversedRange.Resolvable t := by
    intro hall
    obtain ⟨resolved, hok⟩ := hiff'.mpr hall
    rw [hfault] at hok
    cases hok
  obtain ⟨before, t, after, reason, htries, -, -, hf, hreason⟩ := hfirst hnot
  obtain rfl : "range 0x3..=0x2 outside 4 code units" = reason := by
    simpa using hfault.symm.trans hreason
  exact ⟨hresolved, hiff.mp ⟨_, hresolved⟩, hfault, t, by rw [htries]; simp, hf⟩

end Body

end Dalvik
