/-
# Resolved ranges

What a range, its handlers and all ranges of a body are resolved to, as equations and as what
follows from success.  Nothing is assumed of the body: where a handle is not found, the bounds are
not either.

Main statements: `entries_of_resolveHandlers`, `resolveTry_eq`, `resolveTry_eq_ok` and
`resolveTries_eq_ok`.
-/
import Dalvik.Body.Try
import Dalvik.Proofs.Outcome

namespace Dalvik

/-- The handlers one by one; the one that catches everything comes last. -/
def HandlerList.entries (list : HandlerList) : List (Option String × UInt32) :=
  list.typed.map (fun (type, address) => (some type, address)) ++ list.catchAll.toList.map (none, ·)

namespace Body

variable {b : Body} {t : TryRange} {r : ResolvedTry}

/-- **Handlers are resolved one by one**, each to its type and the offset of its instruction. -/
theorem entries_of_resolveHandlers {handlers : List CatchHandler} {list : HandlerList}
    (h : b.resolveHandlers handlers = .ok list) :
    List.Forall₂ (fun c entry => entry.1 = c.type? ∧ b.offsetOf c.target = .ok entry.2.toNat)
      handlers list.entries := by
  induction handlers generalizing list with
  | nil =>
    cases h
    exact .nil
  | cons c rest ih =>
    rw [resolveHandlers] at h
    obtain ⟨offset, ho, hn⟩ := bind_eq_ok.mp h
    obtain ⟨address, ha, hm⟩ := bind_eq_ok.mp hn
    have hentry : b.offsetOf c.target = .ok address.toNat := by rw [Bytes.narrow32_eq_ok ha, ho]
    split at hm
    case h_1 type _ htype =>
      obtain ⟨tail, hr, hl⟩ := bind_eq_ok.mp hm
      obtain rfl := pure_eq_ok.mp hl
      exact .cons ⟨htype.symm, hentry⟩ (ih hr)
    case h_2 htype =>
      obtain rfl := pure_eq_ok.mp hm
      exact .cons ⟨htype.symm, hentry⟩ .nil
    case h_3 => exact absurd hm throw_ne_ok

/-- The tests that a range has to pass, one after the other. -/
theorem resolveTry_eq {start last : Nat} {address : UInt32}
    (hbounds : b.tryBounds t = .ok (start, last)) (haddress : Bytes.narrow32 start = .ok address) :
    b.resolveTry t =
      if b.codeUnits ≤ start ∨ last < start then
        .error (.malformedTryRange
          s!"{rangeText start last} outside {b.codeUnits} code units")
      else if t.handlers = [] then
        .error (.malformedTryRange s!"{rangeText start last} has no handlers")
      else if start + 0xFFFF ≤ last then
        .error (.malformedTryRange s!"{rangeText start last} is too long")
      else
        (b.resolveHandlers t.handlers).map fun handlers =>
          { start := address, count := (last - start + 1).toUInt16, handlers } := by
  have hrun {α : Type} {a : α} {next : α → Except Error ResolvedTry} :
      (Except.ok a >>= next) = next a := rfl
  rw [resolveTry, hbounds, hrun]
  dsimp only
  simp only [Bool.or_eq_true, decide_eq_true_eq]
  split
  · rfl
  · rename_i hinside
    simp only [List.isEmpty_iff]
    split
    · rfl
    · rw [haddress, hrun]
      have hlong : 0x10000 ≤ last - start + 1 ↔ start + 0xFFFF ≤ last := by omega
      simp only [hlong]
      split
      · rfl
      · cases b.resolveHandlers t.handlers <;> rfl

/-- A range that is resolved has passed every test, and its start has fitted. -/
theorem resolveTry_eq_ok :
    b.resolveTry t = .ok r ↔ ∃ start last, b.tryBounds t = .ok (start, last) ∧
      start < b.codeUnits ∧ start ≤ last ∧ last < start + 0xFFFF ∧ t.handlers ≠ [] ∧
        Bytes.narrow32 start = .ok r.start ∧ (last - start + 1).toUInt16 = r.count ∧
          b.resolveHandlers t.handlers = .ok r.handlers := by
  constructor
  · intro h
    obtain ⟨⟨start, last⟩, hbounds, hrun⟩ := bind_eq_ok.mp h
    have hstart : ∃ address, Bytes.narrow32 start = .ok address := by
      dsimp only at hrun
      split at hrun
      · obtain ⟨_, hthrow, -⟩ := bind_eq_ok.mp hrun
        exact absurd hthrow throw_ne_ok
      split at hrun
      · obtain ⟨_, hthrow, -⟩ := bind_eq_ok.mp hrun
        exact absurd hthrow throw_ne_ok
      obtain ⟨address, haddress, -⟩ := bind_eq_ok.mp hrun
      exact ⟨address, haddress⟩
    obtain ⟨address, haddress⟩ := hstart
    rw [resolveTry_eq hbounds haddress] at h
    split at h
    · cases h
    rename_i hinside
    split at h
    · cases h
    rename_i hhandled
    split at h
    · cases h
    rename_i hshort
    obtain ⟨handlers, hhandlers, rfl⟩ := map_eq_ok.mp h
    exact ⟨start, last, hbounds, by omega, by omega, by omega, hhandled, haddress, rfl, hhandlers⟩
  · rintro ⟨start, last, hbounds, hinside, hforward, hshort, hhandled, haddress, hcount, hhandlers⟩
    rw [resolveTry_eq hbounds haddress, if_neg (by omega), if_neg hhandled, if_neg (by omega),
      hhandlers, hcount]
    rfl

theorem resolveTries_eq_ok {resolved : List ResolvedTry} :
    b.resolveTries = .ok resolved ↔ ∃ ranges, b.tries.mapM b.resolveTry = .ok ranges ∧
      (ranges.mergeSort fun s t => s.start ≤ t.start) = resolved := by
  simp only [resolveTries, bind_eq_ok, pure_eq_ok]

theorem ok_of_resolveTries {resolved : List ResolvedTry} (h : b.resolveTries = .ok resolved) :
    ∀ t ∈ b.tries, ∃ r, b.resolveTry t = .ok r := by
  obtain ⟨ranges, hm, -⟩ := resolveTries_eq_ok.mp h
  exact ok_of_mapM hm

/-- What is resolved is what some range is resolved to. -/
theorem mem_of_resolveTries {resolved : List ResolvedTry} (h : b.resolveTries = .ok resolved) :
    r ∈ resolved ↔ ∃ t ∈ b.tries, b.resolveTry t = .ok r := by
  obtain ⟨ranges, hm, rfl⟩ := resolveTries_eq_ok.mp h
  rw [List.mem_mergeSort]
  constructor
  · exact exists_of_mapM hm r
  · rintro ⟨t, ht, hrun⟩
    obtain ⟨r', hr', hrun'⟩ := exists_of_mem_left (mapM_eq_ok.mp hm) t ht
    obtain rfl := Except.ok.inj (hrun.symm.trans hrun')
    exact hr'

end Body

end Dalvik
