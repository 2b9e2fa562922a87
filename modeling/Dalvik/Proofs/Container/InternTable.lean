/-
# Runs over a table of items

A run is any calls in any order, those that fail among them.  What carries it is that the items, the
places of the keys and the offsets stay in step: a place is found under a key exactly if an item
with that key stands there.  Places are never given up, so what a lookup finds, it finds for good.

Main statements: `run_in_step`, what any run from an empty table leaves, and `shared_after`, that
the items with their offsets, as the writer of a container keeps them, change alike;
`shared_offsets_after` is the case of the writer, that sets the offsets of all places at once.
-/
import Dalvik.Container.InternTable
import Dalvik.Proofs.Container.SharedKeys
import Dalvik.Proofs.Container.Tables

namespace Dalvik.InternTable

variable {α : Type} [Keyed α] {t : InternTable α} {a : α} {place : UInt32}

/-! ## 1. Calls -/

/-- A call of a table. -/
inductive Call (α : Type) where
  | intern (a : α)
  | setOffset (place offset : UInt32)
  | freeze

/-- The call, with the place that it answers. -/
def Call.perform : Call α → Interner α (Option UInt32)
  | intern a => do return some (← InternTable.intern a)
  | setOffset place offset => do
    InternTable.setOffset place offset
    return none
  | freeze => do
    InternTable.freeze
    return none

/-- The table that a call leaves, whether it succeeds or not. -/
def Call.after (c : Call α) (t : InternTable α) : InternTable α :=
  match c.perform t with
  | .ok _ u => u
  | .error _ u => u

/-- The table that a run of calls leaves. -/
def after (t : InternTable α) (calls : List (Call α)) : InternTable α :=
  calls.foldl (fun t c => c.after t) t

theorem after_append (t : InternTable α) (calls more : List (Call α)) :
    t.after (calls ++ more) = (t.after calls).after more :=
  List.foldl_append

/-- An item whose key is there is not added. -/
theorem intern_of_some (h : t.index? a = some place) : intern a t = .ok place t := by
  refine stateBind_eq_ok.mpr ⟨t, t, rfl, ?_⟩
  simp only [h]
  rfl

theorem intern_of_frozen (h : t.index? a = none) (hf : t.frozen = true) :
    intern a t = .error (.frozenPool t.name) t := by
  refine stateBind_eq_error.mpr (.inr ⟨t, t, rfl, ?_⟩)
  simp only [h]
  refine stateBind_eq_error.mpr (.inr ⟨t, t, rfl, ?_⟩)
  rw [if_pos hf]
  rfl

/-- An item that is new to an open table gets the next place, if there is one. -/
theorem intern_of_open (h : t.index? a = none) (hf : t.frozen = false)
    (hn : Bytes.narrow32 t.items.size = .ok place) :
    intern a t = .ok place (t.grown a place) := by
  refine stateBind_eq_ok.mpr ⟨t, t, rfl, ?_⟩
  simp only [h]
  refine stateBind_eq_ok.mpr ⟨t, t, rfl, ?_⟩
  rw [if_neg (by simp [hf])]
  refine stateBind_eq_ok.mpr ⟨t, t, rfl, ?_⟩
  rw [hn]
  rfl

theorem intern_of_full {cause : Error} (h : t.index? a = none) (hf : t.frozen = false)
    (hn : Bytes.narrow32 t.items.size = .error cause) : intern a t = .error cause t := by
  refine stateBind_eq_error.mpr (.inr ⟨t, t, rfl, ?_⟩)
  simp only [h]
  refine stateBind_eq_error.mpr (.inr ⟨t, t, rfl, ?_⟩)
  rw [if_neg (by simp [hf])]
  refine stateBind_eq_error.mpr (.inr ⟨t, t, rfl, ?_⟩)
  rw [hn]
  rfl

/-- All that adding an item can do. -/
theorem intern_cases (a : α) (t : InternTable α) :
    (∃ place, t.index? a = some place ∧ intern a t = .ok place t) ∨
      t.index? a = none ∧
        ((t.frozen = true ∨ 0x100000000 ≤ t.items.size) ∧ (∃ cause, intern a t = .error cause t) ∨
          t.frozen = false ∧
            ∃ place, place.toNat = t.items.size ∧ intern a t = .ok place (t.grown a place)) := by
  cases hp : t.index? a with
  | some place => exact .inl ⟨place, rfl, intern_of_some hp⟩
  | none =>
    refine .inr ⟨rfl, ?_⟩
    cases hf : t.frozen with
    | true => exact .inl ⟨.inl rfl, _, intern_of_frozen hp hf⟩
    | false =>
      cases hn : Bytes.narrow32 t.items.size with
      | ok place => exact .inr ⟨rfl, place, Bytes.narrow32_eq_ok hn, intern_of_open hp hf hn⟩
      | error cause =>
        refine .inl ⟨.inr ?_, cause, intern_of_full hp hf hn⟩
        by_contra hsize
        rw [Bytes.narrow32_of_lt (by omega)] at hn
        cases hn

/-- What a call can do to a table. -/
inductive Effect (t : InternTable α) : Call α → InternTable α → Prop where
  /-- The item is there, or cannot be added. -/
  | same {a : α} (h : t.index? a ≠ none ∨ t.frozen = true ∨ 0x100000000 ≤ t.items.size) :
    Effect t (.intern a) t
  | grown {a : α} {place : UInt32} (hnew : t.index? a = none) (hf : t.frozen = false)
    (hplace : place.toNat = t.items.size) : Effect t (.intern a) (t.grown a place)
  | offset (place offset : UInt32) : Effect t (.setOffset place offset)
    { t with offsets := t.offsets.setIfInBounds place.toNat offset }
  | frozen : Effect t .freeze { t with frozen := true }

theorem Call.after_intern_of_ok {u : InternTable α} (h : InternTable.intern a t = .ok place u) :
    (Call.intern a).after t = u := by
  have hrun : (Call.intern a).perform t = .ok (some place) u :=
    stateBind_eq_ok.mpr ⟨place, u, h, rfl⟩
  rw [after, hrun]

theorem Call.after_intern_of_error {cause : Error} {u : InternTable α}
    (h : InternTable.intern a t = .error cause u) : (Call.intern a).after t = u := by
  have hrun : (Call.intern a).perform t = .error cause u :=
    stateBind_eq_error.mpr (.inl h)
  rw [after, hrun]

/-- **All that a call can do.** -/
theorem effect_after (t : InternTable α) (c : Call α) : Effect t c (c.after t) := by
  cases c with
  | setOffset place offset => exact .offset place offset
  | freeze => exact .frozen
  | intern a =>
    obtain ⟨place, hp, hrun⟩ | ⟨hnew, ⟨hclosed, cause, hrun⟩ | ⟨hf, place, hplace, hrun⟩⟩ :=
      intern_cases a t
    · rw [Call.after_intern_of_ok hrun]
      exact .same (.inl (by simp [hp]))
    · rw [Call.after_intern_of_error hrun]
      exact .same (.inr hclosed)
    · rw [Call.after_intern_of_ok hrun]
      exact .grown hnew hf hplace

/-! ## 2. In step -/

/-- The items, the places of the keys and the offsets agree. -/
structure InStep (t : InternTable α) : Prop where
  size_le : t.items.size ≤ 0x100000000
  offsets_size : t.offsets.size = t.items.size
  places_iff : ∀ {k : List UInt8} {place : UInt32}, t.places.lookup k = some place ↔
    ∃ a, t.items[place.toNat]? = some a ∧ key a = k

theorem InStep.empty (name : String) : InStep ({ name } : InternTable α) where
  size_le := Nat.zero_le _
  offsets_size := rfl
  places_iff := by simp

theorem InStep.index?_iff_key (h : InStep t) :
    t.index? a = some place ↔ ∃ b, t.items[place.toNat]? = some b ∧ key b = key a :=
  h.places_iff

@[simp] theorem index?_grown : (t.grown a place).index? a = some place := by
  simp [InternTable.index?, InternTable.grown]

theorem InStep.grown (h : InStep t) (hnew : t.index? a = none)
    (hplace : place.toNat = t.items.size) : InStep (t.grown a place) where
  size_le := by
    have := place.toNat_lt
    rw [InternTable.grown, Array.size_push]
    omega
  offsets_size := by
    simp [InternTable.grown, h.offsets_size]
  places_iff {k p} := by
    simp only [InternTable.grown, List.lookup_cons, Array.getElem?_push]
    by_cases hk : k = key a
    · subst hk
      simp only [BEq.rfl, Option.some.injEq]
      constructor
      · rintro rfl
        exact ⟨a, if_pos hplace, rfl⟩
      · rintro ⟨b, hb, hkey⟩
        by_cases hp : p.toNat = t.items.size
        · exact UInt32.toNat_inj.mp (hplace.trans hp.symm)
        · rw [if_neg hp] at hb
          have hfound := h.index?_iff_key.mpr ⟨b, hb, hkey⟩
          rw [hnew] at hfound
          cases hfound
    · simp only [beq_eq_false_iff_ne.mpr hk, h.places_iff]
      refine exists_congr fun b => and_congr_left fun hkey => ?_
      have hb : b ≠ a := fun hb => hk (hb ▸ hkey.symm)
      by_cases hp : p.toNat = t.items.size
      · simp [hp, hb.symm]
      · rw [if_neg hp]

theorem InStep.effect {c : Call α} {u : InternTable α} (h : InStep t) (he : Effect t c u) :
    InStep u := by
  cases he with
  | same => exact h
  | grown hnew _ hplace => exact h.grown hnew hplace
  | offset => exact ⟨h.size_le, by simp [h.offsets_size], h.places_iff⟩
  | frozen => exact ⟨h.size_le, h.offsets_size, h.places_iff⟩

theorem InStep.after (h : InStep t) (calls : List (Call α)) : InStep (t.after calls) := by
  induction calls generalizing t with
  | nil => exact h
  | cons c calls ih => exact ih (h.effect (effect_after t c))

/-! ## 3. What stays -/

/-- A table goes on from another: its items come first, at their places. -/
structure GoesOn (t u : InternTable α) : Prop where
  name_eq : u.name = t.name
  item : ∀ {k : Nat} {a : α}, t.items[k]? = some a → u.items[k]? = some a
  frozen : t.frozen = true → u.frozen = true ∧ u.items = t.items

omit [Keyed α] in
theorem GoesOn.refl (t : InternTable α) : GoesOn t t :=
  ⟨rfl, id, fun h => ⟨h, rfl⟩⟩

omit [Keyed α] in
theorem GoesOn.trans {u v : InternTable α} (h : GoesOn t u) (h' : GoesOn u v) : GoesOn t v where
  name_eq := h'.name_eq.trans h.name_eq
  item hk := h'.item (h.item hk)
  frozen hf := by
    obtain ⟨hu, hitems⟩ := h.frozen hf
    exact ⟨(h'.frozen hu).1, (h'.frozen hu).2.trans hitems⟩

theorem goesOn_of_effect {c : Call α} {u : InternTable α} (he : Effect t c u) : GoesOn t u := by
  cases he with
  | same => exact .refl t
  | @grown a place hnew hf hplace =>
    refine ⟨rfl, fun {k b} hk => ?_, fun h => ?_⟩
    · obtain ⟨hlt, -⟩ := Array.getElem?_eq_some_iff.mp hk
      rw [InternTable.grown, Array.getElem?_push, if_neg (by omega), hk]
    · rw [hf] at h
      cases h
  | offset => exact ⟨rfl, id, fun h => ⟨h, rfl⟩⟩
  | frozen => exact ⟨rfl, id, fun _ => ⟨rfl, rfl⟩⟩

/-- **Items keep their places** through any run. -/
theorem goesOn_after (t : InternTable α) (calls : List (Call α)) : GoesOn t (t.after calls) := by
  induction calls generalizing t with
  | nil => exact .refl t
  | cons c calls ih => exact (goesOn_of_effect (effect_after t c)).trans (ih _)

/-- A place that is found is found for good. -/
theorem GoesOn.index? {u : InternTable α} (h : GoesOn t u) (ht : InStep t) (hu : InStep u)
    (hp : t.index? a = some place) : u.index? a = some place := by
  obtain ⟨b, hb, hkey⟩ := ht.index?_iff_key.mp hp
  exact hu.index?_iff_key.mpr ⟨b, h.item hb, hkey⟩

/-! ## 4. A run from an empty table -/

/-- The offset that a call sets for a place. -/
def Call.offsetFor? (place : UInt32) : Call α → Option UInt32
  | setOffset p offset => if p = place then some offset else none
  | _ => none

/-- The offset that calls set last for a place, and zero if none does. -/
def lastOffset (place : UInt32) (calls : List (Call α)) : UInt32 :=
  (calls.filterMap (Call.offsetFor? place)).getLast?.getD 0

omit [Keyed α] in
theorem lastOffset_concat (place : UInt32) (calls : List (Call α)) (c : Call α) :
    lastOffset place (calls ++ [c]) = (c.offsetFor? place).getD (lastOffset place calls) := by
  rw [lastOffset, List.filterMap_append]
  cases hc : c.offsetFor? place with
  | none => simp [lastOffset, hc]
  | some offset => simp [hc]

/-- What a table has to do with the calls that led to it from an empty one. -/
structure Tells (name : String) (calls : List (Call α)) (t : InternTable α) : Prop where
  frozen_iff : t.frozen = true ↔ .freeze ∈ calls
  /-- An item that was handed over is there, unless it came too late. -/
  handed : ∀ {a : α}, .intern a ∈ calls →
    t.index? a ≠ none ∨ t.frozen = true ∨ 0x100000000 ≤ t.items.size
  /-- An item stands where its first call put it, after the items that were there then; its offset
  is the last that was set since. -/
  item : ∀ {place : UInt32} {a : α}, t.items[place.toNat]? = some a →
    ∃ before later, calls = before ++ .intern a :: later ∧ .intern a ∉ before ∧
      (after { name } before).items.toList = t.items.toList.take place.toNat ∧
        t.offsets[place.toNat]? = some (lastOffset place later)

theorem Tells.empty (name : String) : Tells name [] ({ name } : InternTable α) where
  frozen_iff := by simp
  handed h := by cases h
  item h := by simp at h

/-- The table of a call that changes no item. -/
theorem Tells.keep {name : String} {calls : List (Call α)} {c : Call α} {u : InternTable α}
    (h : Tells name calls t) (hfrozen : u.frozen = true ↔ t.frozen = true ∨ .freeze = c)
    (hitems : u.items = t.items) (hplaces : u.places = t.places)
    (hhanded : ∀ a, .intern a = c → t.index? a ≠ none ∨ t.frozen = true ∨
      0x100000000 ≤ t.items.size)
    (hoffset : ∀ {place : UInt32} {offset : UInt32}, t.offsets[place.toNat]? = some offset →
      u.offsets[place.toNat]? = some ((c.offsetFor? place).getD offset)) :
    Tells name (calls ++ [c]) u where
  frozen_iff := by
    rw [hfrozen, h.frozen_iff, List.mem_append, List.mem_singleton]
  handed {a} ha := by
    have hwas : t.index? a ≠ none ∨ t.frozen = true ∨ 0x100000000 ≤ t.items.size := by
      rcases List.mem_append.mp ha with ha | ha
      · exact h.handed ha
      · exact hhanded a (List.mem_singleton.mp ha)
    rw [InternTable.index?, hplaces, hfrozen, hitems]
    rcases hwas with hi | hf | hs
    · exact .inl hi
    · exact .inr (.inl (.inl hf))
    · exact .inr (.inr hs)
  item {place a} hk := by
    rw [hitems] at hk ⊢
    obtain ⟨before, later, rfl, hfirst, htake, ho⟩ := h.item hk
    refine ⟨before, later ++ [c], by simp, hfirst, htake, ?_⟩
    rw [hoffset ho, lastOffset_concat]

theorem Tells.effect {name : String} {calls : List (Call α)} {c : Call α} {u : InternTable α}
    (h : Tells name calls t) (ht : InStep t) (hrun : t = after { name } calls)
    (he : Effect t c u) : Tells name (calls ++ [c]) u := by
  cases he with
  | @same a hsame =>
    refine h.keep (by simp) rfl rfl ?_ fun ho => ho
    rintro b hb
    cases hb
    exact hsame
  | offset p offset =>
    refine h.keep (by simp) rfl rfl (by simp) fun {place} {old} ho => ?_
    obtain ⟨hlt, -⟩ := Array.getElem?_eq_some_iff.mp ho
    rw [Array.getElem?_setIfInBounds]
    by_cases hp : p = place
    · subst hp
      simp [Call.offsetFor?, hlt]
    · rw [if_neg fun hn => hp (UInt32.toNat_inj.mp hn), ho]
      simp [Call.offsetFor?, hp]
  | frozen => exact h.keep (by simp) rfl rfl (by simp) fun ho => ho
  | @grown a place hnew hf hplace =>
    have hgrown := ht.grown hnew hplace
    have hgoes := goesOn_of_effect (.grown hnew hf hplace : Effect t _ _)
    have hroom : ¬ (t.frozen = true ∨ 0x100000000 ≤ t.items.size) := by
      have := place.toNat_lt
      simp only [hf, Bool.false_eq_true, false_or]
      omega
    refine ⟨?_, fun {b} hb => .inl ?_, fun {p b} hk => ?_⟩
    · rw [List.mem_append, ← h.frozen_iff]
      simp [InternTable.grown]
    · rcases List.mem_append.mp hb with hb | hb
      · obtain ⟨q, hq⟩ := Option.ne_none_iff_exists'.mp ((h.handed hb).resolve_right hroom)
        rw [hgoes.index? ht hgrown hq]
        simp
      · cases List.mem_singleton.mp hb
        simp
    · have hitems : (t.grown a place).items.toList = t.items.toList ++ [a] :=
        Array.toList_push
      have hoffsets : (t.grown a place).offsets = t.offsets.push 0 := rfl
      rw [hitems, hoffsets, Array.getElem?_push, ht.offsets_size]
      rw [InternTable.grown, Array.getElem?_push] at hk
      by_cases hp : p.toNat = t.items.size
      · rw [if_pos hp, Option.some.injEq] at hk
        subst hk
        refine ⟨calls, [], by simp, fun hb => ?_, ?_, if_pos hp⟩
        · exact (h.handed hb).elim (fun hne => hne hnew) hroom
        · rw [← hrun, hp, ← Array.length_toList, List.take_left]
      · rw [if_neg hp] at hk
        obtain ⟨hlt, -⟩ := Array.getElem?_eq_some_iff.mp hk
        obtain ⟨before, later, rfl, hfirst, htake, ho⟩ := h.item hk
        refine ⟨before, later ++ [.intern a], by simp, hfirst, ?_, ?_⟩
        · rw [htake, List.take_append_of_le_length (by rw [Array.length_toList]; omega)]
        · rw [if_neg hp, ho, lastOffset_concat]
          rfl

theorem tells_after (name : String) (calls : List (Call α)) :
    Tells name calls (after { name } calls) := by
  induction calls using List.reverseRecOn with
  | nil => exact .empty name
  | append_singleton calls c ih =>
    have happend : after { name } (calls ++ [c]) = c.after (after { name } calls) :=
      after_append ..
    rw [happend]
    exact ih.effect ((InStep.empty name).after calls) rfl (effect_after _ c)

/-! ## 5. By content -/

/-- Every item has a place of 32 bits. -/
theorem InStep.mem_iff (h : InStep t) : a ∈ t.items ↔ ∃ place : UInt32,
    t.items[place.toNat]? = some a := by
  rw [Array.mem_iff_getElem?]
  constructor
  · rintro ⟨k, hk⟩
    obtain ⟨hlt, -⟩ := Array.getElem?_eq_some_iff.mp hk
    have hsize := h.size_le
    refine ⟨k.toUInt32, ?_⟩
    rwa [Nat.toUInt32_eq, UInt32.toNat_ofNat_of_lt' (Nat.lt_of_lt_of_le hlt hsize)]
  · rintro ⟨place, hk⟩
    exact ⟨_, hk⟩

/-- A place that was answered is answered for good. -/
theorem InStep.intern_after {u : InternTable α} (h : InStep t) (ha : intern a t = .ok place u)
    (more : List (Call α)) : intern a (u.after more) = .ok place (u.after more) := by
  have hfound : InStep u ∧ u.index? a = some place := by
    obtain ⟨p, hp, hrun⟩ | ⟨hnew, ⟨-, cause, hrun⟩ | ⟨-, p, hplace, hrun⟩⟩ := intern_cases a t
    · cases hrun.symm.trans ha
      exact ⟨h, hp⟩
    · cases hrun.symm.trans ha
    · cases hrun.symm.trans ha
      exact ⟨h.grown hnew hplace, index?_grown⟩
  exact intern_of_some ((goesOn_after u more).index? hfound.1 (hfound.1.after more) hfound.2)

/-- What a table answers about an item, after the calls that led to it. -/
structure ByContent (name : String) (calls : List (Call α)) (t : InternTable α) (a : α) :
    Prop where
  /-- An index is the place of the item itself. -/
  index_iff : ∀ place, t.index? a = some place ↔ t.items[place.toNat]? = some a
  /-- An item that is there is not added again.  It came with its first call, after the items that
  stand before it, and its offset is the last that was set for its place since then. -/
  old : ∀ place, t.items[place.toNat]? = some a → intern a t = .ok place t ∧
    ∃ before later, calls = before ++ .intern a :: later ∧ .intern a ∉ before ∧
      (after { name } before).items.toList = t.items.toList.take place.toNat ∧
        t.offsetOf a = .ok (lastOffset place later)
  /-- An item that is not there gets the next place, as long as there is one. -/
  new : a ∉ t.items → t.frozen = false → t.items.size < 0x100000000 →
    ∃ place u, intern a t = .ok place u ∧ place.toNat = t.items.size ∧
      u.items = t.items.push a ∧ u.offsets = t.offsets.push 0
  late : a ∉ t.items → t.frozen = true → intern a t = .error (.frozenPool name) t
  /-- What fails changes nothing. -/
  failed : ∀ {cause u}, intern a t = .error cause u → u = t
  /-- A place that was answered is answered for good. -/
  kept : ∀ {place u}, intern a t = .ok place u →
    ∀ more, intern a (u.after more) = .ok place (u.after more)
  dangling_iff : t.offsetOf a = .error (.danglingReference s!"{name} item") ↔ a ∉ t.items

section Content

variable [Delimited α]

/-- Where keys tell the items apart, an index is the place of the item itself. -/
theorem InStep.index?_iff (h : InStep t) (hitems : ∀ b ∈ t.items, Counted b) (ha : Counted a) :
    t.index? a = some place ↔ t.items[place.toNat]? = some a := by
  rw [h.index?_iff_key]
  constructor
  · rintro ⟨b, hb, hkey⟩
    obtain ⟨rfl, -⟩ := Delimited.delimits (hitems b (Array.mem_of_getElem? hb)) ha
      (congrArg (· ++ []) hkey)
    exact hb
  · intro hb
    exact ⟨a, hb, rfl⟩

/-- The items of a run are those that were handed over. -/
theorem counted_items (name : String) {calls : List (Call α)}
    (hcalls : ∀ a, .intern a ∈ calls → Counted a) :
    ∀ b ∈ (after { name } calls).items, Counted b := by
  intro b hb
  obtain ⟨place, hk⟩ := ((InStep.empty name).after calls).mem_iff.mp hb
  obtain ⟨before, later, rfl, -⟩ := (tells_after name calls).item hk
  exact hcalls b (by simp)

theorem InStep.nodup (h : InStep t) (hitems : ∀ b ∈ t.items, Counted b) :
    t.items.toList.Nodup := by
  refine List.pairwise_iff_getElem.mpr fun i j hi hj hij heq => ?_
  have hsize := h.size_le
  rw [Array.length_toList] at hi hj
  rw [Array.getElem_toList, Array.getElem_toList] at heq
  -- the item at both places is found at one of them
  have hfound (k : Nat) (hk : k < t.items.size) (hat : t.items[k] = t.items[i]) :
      t.index? t.items[i] = some k.toUInt32 := by
    refine (h.index?_iff hitems (hitems _ (Array.getElem_mem hi))).mpr ?_
    rw [Nat.toUInt32_eq, UInt32.toNat_ofNat_of_lt' (Nat.lt_of_lt_of_le hk hsize),
      Array.getElem?_eq_getElem hk, hat]
  have hplaces := (hfound i hi rfl).symm.trans (hfound j hj heq.symm)
  have hnat := congrArg UInt32.toNat (Option.some.inj hplaces)
  rw [Nat.toUInt32_eq, Nat.toUInt32_eq, UInt32.toNat_ofNat_of_lt' (Nat.lt_of_lt_of_le hi hsize),
    UInt32.toNat_ofNat_of_lt' (Nat.lt_of_lt_of_le hj hsize)] at hnat
  omega

/-- **What any run leaves**: different items, in the order in which they first came, and answers
that go by content alone.  An offset that is set before its place is there sets nothing, so the last
that counts for an item is among the calls after its first one. -/
theorem run_in_step {name : String} {calls : List (Call α)}
    (hcalls : ∀ a, .intern a ∈ calls → Counted a) :
    (after { name } calls).items.toList.Nodup ∧
      ((after { name } calls).frozen = true ↔ .freeze ∈ calls) ∧
        ∀ a, Counted a → ByContent name calls (after { name } calls) a := by
  have hstep : InStep (after { name } calls) := (InStep.empty name).after calls
  have htells := tells_after name calls
  have hname : (after { name } calls).name = name := (goesOn_after { name } calls).name_eq
  have hitems := counted_items name hcalls
  refine ⟨hstep.nodup hitems, htells.frozen_iff, fun a ha => ?_⟩
  generalize after { name } calls = t at *
  have hindex (place : UInt32) : t.index? a = some place ↔ t.items[place.toNat]? = some a :=
    hstep.index?_iff hitems ha
  have hnone : t.index? a = none ↔ a ∉ t.items := by
    rw [hstep.mem_iff, Option.eq_none_iff_forall_ne_some, not_exists]
    exact forall_congr' fun place => not_congr (hindex place)
  have hoffset {place offset : UInt32} (hk : t.items[place.toNat]? = some a)
      (ho : t.offsets[place.toNat]? = some offset) : t.offsetOf a = .ok offset := by
    rw [offsetOf, (hindex place).mpr hk, Option.bind_some, offsetAt?, ho]
  exact {
    index_iff := hindex
    old := by
      intro place hk
      obtain ⟨before, later, hcalls, hfirst, htake, ho⟩ := htells.item hk
      exact ⟨intern_of_some ((hindex place).mpr hk), before, later, hcalls, hfirst, htake,
        hoffset hk ho⟩
    new := by
      intro hn hf hsize
      refine ⟨_, _, intern_of_open (hnone.mpr hn) hf (Bytes.narrow32_of_lt hsize), ?_, rfl, rfl⟩
      exact Bytes.narrow32_eq_ok (Bytes.narrow32_of_lt hsize)
    late := by
      intro hn hf
      rw [intern_of_frozen (hnone.mpr hn) hf, hname]
    failed := by
      intro cause u hrun
      obtain ⟨p, -, h⟩ | ⟨-, ⟨-, c, h⟩ | ⟨-, p, -, h⟩⟩ := intern_cases a t
      · cases h.symm.trans hrun
      · cases h.symm.trans hrun
        rfl
      · cases h.symm.trans hrun
    kept := fun hrun more => hstep.intern_after hrun more
    dangling_iff := by
      constructor
      · intro hdangling hmem
        obtain ⟨place, hk⟩ := hstep.mem_iff.mp hmem
        obtain ⟨before, later, -, -, -, ho⟩ := htells.item hk
        rw [hoffset hk ho] at hdangling
        cases hdangling
      · intro hmem
        rw [offsetOf, hnone.mpr hmem, Option.bind_none, hname] }

/-- Positive and negative zero, which are different constants.  The offset that comes before its
place is lost. -/
def signedZeros : List (Call (List EncodedValue)) :=
  [.setOffset 1 0x30, .intern [.float 0], .intern [.float 0x80000000], .setOffset 1 0x40,
    .intern [.float 0], .freeze, .intern [.null]]

theorem run_in_step_signedZeros :
    (∀ a, .intern a ∈ signedZeros → Counted a) ∧
      (∀ a, Counted a → ByContent "encoded array" signedZeros
        (after { name := "encoded array" } signedZeros) a) ∧
          (after { name := "encoded array" } signedZeros).offsetOf [.float 0x80000000] =
            .ok 0x40 := by
  have hcounted : ∀ a, .intern a ∈ signedZeros → Counted a := by
    intro a ha
    simp only [signedZeros, List.mem_cons, List.not_mem_nil, Call.intern.injEq, reduceCtorEq,
      or_false, false_or] at ha
    rcases ha with rfl | rfl | rfl | rfl <;> exact counted_of_key (by decide +kernel)
  exact ⟨hcounted, (run_in_step hcounted).2.2, by decide +kernel⟩

end Content

/-! ## 6. What the writer keeps -/

theorem InStep.shared_items (h : InStep t) : t.shared.items = t.items.toList := by
  refine List.map_fst_zip ?_
  rw [Array.length_toList, Array.length_toList, h.offsets_size]

theorem InStep.shared_offsets (h : InStep t) : t.shared.offsets = t.offsets.toList := by
  refine List.map_snd_zip ?_
  rw [Array.length_toList, Array.length_toList, h.offsets_size]

/-- Looking for the first item with a key is looking up the key. -/
theorem InStep.shared_index? (h : InStep t) (a : α) :
    t.shared.index? a = (t.index? a).map UInt32.toNat := by
  have hindex : t.shared.index? a = t.shared.items.findIdx? fun b => key b == key a := by
    rw [SharedItems.items, List.findIdx?_map]
    rfl
  rw [hindex, h.shared_items]
  cases hp : t.index? a with
  | none =>
    rw [Option.map_none, List.findIdx?_eq_none_iff]
    intro b hb
    obtain ⟨place, hk⟩ := h.mem_iff.mp (Array.mem_toList_iff.mp hb)
    by_contra hkey
    rw [h.index?_iff_key.mpr ⟨b, hk, by simpa using hkey⟩] at hp
    cases hp
  | some place =>
    obtain ⟨b, hb, hkey⟩ := h.index?_iff_key.mp hp
    obtain ⟨hlt, hat⟩ := Array.getElem?_eq_some_iff.mp hb
    rw [Option.map_some, List.findIdx?_eq_some_iff_getElem]
    refine ⟨by rwa [Array.length_toList], by simp [hat, hkey], fun j hj => ?_⟩
    simp only [Array.getElem_toList, beq_iff_eq]
    intro hsame
    have hsize := h.size_le
    have hj' : j < UInt32.size := Nat.lt_trans hj place.toNat_lt
    have hfirst : t.index? a = some j.toUInt32 := by
      refine h.index?_iff_key.mpr ⟨t.items[j], ?_, hsame⟩
      rw [Nat.toUInt32_eq, UInt32.toNat_ofNat_of_lt' hj', Array.getElem?_eq_getElem]
    have hplaces := congrArg UInt32.toNat (Option.some.inj (hfirst.symm.trans hp))
    rw [Nat.toUInt32_eq, UInt32.toNat_ofNat_of_lt' hj'] at hplaces
    omega

theorem InStep.length_entries (h : InStep t) : t.shared.entries.length = t.items.size := by
  rw [← Array.length_toList, ← h.shared_items, SharedItems.items, List.length_map]

theorem InStep.shared_grown (h : InStep t) (a : α) (place : UInt32) :
    (t.grown a place).shared = { t.shared with entries := t.shared.entries ++ [(a, 0)] } := by
  have hzip : (t.items.push a).toList.zip (t.offsets.push 0).toList =
      t.items.toList.zip t.offsets.toList ++ [(a, 0)] := by
    rw [Array.toList_push, Array.toList_push, List.zip_append]
    · rfl
    · rw [Array.length_toList, Array.length_toList, h.offsets_size]
  simp only [shared, InternTable.grown, hzip]

/-- Adding an item does alike to both. -/
theorem InStep.shared_intern (h : InStep t) (a : α) :
    t.shared.intern a =
      match intern a t with
      | .ok place u => .ok (u.shared, place.toNat)
      | .error cause _ => .error cause := by
  have hfrozen : t.shared.frozen = t.frozen := rfl
  unfold SharedItems.intern
  rw [h.shared_index? a, h.length_entries, hfrozen]
  cases hp : t.index? a with
  | some place => rw [intern_of_some hp, Option.map_some]
  | none =>
    rw [Option.map_none]
    cases hf : t.frozen with
    | true =>
      rw [intern_of_frozen hp hf]
      rfl
    | false =>
      cases hn : Bytes.narrow32 t.items.size with
      | error cause =>
        rw [intern_of_full hp hf hn]
        rfl
      | ok place =>
        rw [intern_of_open hp hf hn]
        have hopen : t.shared.frozen = false := hf
        simp only [h.shared_grown a place, Bytes.narrow32_eq_ok hn, hopen]
        rfl

theorem shared_setOffset (t : InternTable α) (place offset : UInt32) :
    ((Call.setOffset place offset).after t).shared = t.shared.setOffset place.toNat offset := by
  have hzip : t.items.toList.zip (t.offsets.setIfInBounds place.toNat offset).toList =
      (t.items.toList.zip t.offsets.toList).modify place.toNat fun e => (e.1, offset) := by
    refine List.ext_getElem? fun k => ?_
    rw [Array.toList_setIfInBounds, List.getElem?_modify]
    simp only [List.zip, List.getElem?_zipWith, List.getElem?_set]
    by_cases hk : place.toNat = k
    · subst hk
      cases t.items.toList[place.toNat]? with
      | none => simp
      | some b => by_cases hlt : place.toNat < t.offsets.size <;> simp [hlt]
    · simp [hk]
  exact congrArg (fun entries => { t.shared with entries }) hzip

theorem InStep.shared_offsetOf (h : InStep t) (a : α) : t.shared.offsetOf a = t.offsetOf a := by
  unfold SharedItems.offsetOf offsetOf
  have hbind : (t.shared.index? a).bind t.shared.offsetAt? = (t.index? a).bind t.offsetAt? := by
    rw [h.shared_index? a]
    cases t.index? a with
    | none => rfl
    | some place =>
      rw [Option.map_some, Option.bind_some, Option.bind_some, SharedItems.offsetAt?,
        h.shared_offsets, offsetAt?, Array.getElem?_toList]
  rw [hbind]
  rfl

/-- What a call does to the items with their offsets. -/
def Call.afterShared (s : SharedItems α) : Call α → SharedItems α
  | intern a =>
    match s.intern a with
    | .ok (s', _) => s'
    | .error _ => s
  | setOffset place offset => s.setOffset place.toNat offset
  | freeze => s.freeze

theorem InStep.shared_after_one (h : InStep t) (c : Call α) :
    (c.after t).shared = c.afterShared t.shared := by
  cases c with
  | setOffset place offset => exact shared_setOffset t place offset
  | freeze => rfl
  | intern a =>
    rw [Call.afterShared, h.shared_intern a]
    obtain ⟨place, -, hrun⟩ | ⟨-, ⟨-, cause, hrun⟩ | ⟨-, place, -, hrun⟩⟩ := intern_cases a t
    · rw [hrun, Call.after_intern_of_ok hrun]
    · rw [hrun, Call.after_intern_of_error hrun]
    · rw [hrun, Call.after_intern_of_ok hrun]

/-- **The items with their offsets change alike**: what the writer of a container keeps is a table
that has been through the same calls. -/
theorem InStep.shared_after (h : InStep t) (calls : List (Call α)) :
    (t.after calls).shared = calls.foldl Call.afterShared t.shared := by
  induction calls generalizing t with
  | nil => rfl
  | cons c calls ih =>
    rw [List.foldl_cons, ← h.shared_after_one c]
    exact ih (h.effect (effect_after t c))

omit [Keyed α] in
/-- Offsets that are set one after the other, from the place behind some entries on. -/
theorem foldl_setOffset (s : SharedItems α) (front : List (α × UInt32)) {rest : List (α × UInt32)}
    {offsets : List UInt32} (hl : offsets.length = rest.length) :
    (offsets.zipIdx front.length).foldl (fun s o => s.setOffset o.2 o.1)
        { s with entries := front ++ rest } =
      { s with entries := front ++ (rest.map (·.1)).zip offsets } := by
  induction rest generalizing front offsets with
  | nil =>
    obtain rfl := List.length_eq_zero_iff.mp hl
    rfl
  | cons e rest ih =>
    cases offsets with
    | nil => cases hl
    | cons offset offsets =>
      have hset : ({ s with entries := front ++ e :: rest } : SharedItems α).setOffset front.length
          offset = { s with entries := (front ++ [(e.1, offset)]) ++ rest } := by
        simp [SharedItems.setOffset, List.modify_eq_take_cons_drop]
      have hrest := ih (front ++ [(e.1, offset)]) (Nat.succ.inj hl)
      rw [List.length_append, List.length_singleton] at hrest
      rw [List.zipIdx_cons, List.foldl_cons, hset, hrest, List.map_cons, List.zip_cons_cons,
        List.append_assoc, List.singleton_append]

omit [Keyed α] in
/-- **Setting all offsets** is setting one after the other, each at its place. -/
theorem setOffsets_eq_foldl {s : SharedItems α} {offsets : List UInt32}
    (hl : offsets.length = s.items.length) : s.setOffsets offsets =
      offsets.zipIdx.foldl (fun s o => s.setOffset o.2 o.1) s := by
  have hentries : offsets.length = s.entries.length := by
    rw [hl, SharedItems.items, List.length_map]
  exact (foldl_setOffset s [] hentries).symm

/-- The calls that set offsets, from the first place on. -/
def Call.offsets (offsets : List UInt32) : List (Call α) :=
  offsets.zipIdx.map fun (offset, place) => .setOffset place.toUInt32 offset

/-- **The offsets that the writer of a container sets at once** are those that a table has after one
call for each place. -/
theorem InStep.shared_offsets_after (h : InStep t) {offsets : List UInt32}
    (hl : offsets.length = t.items.size) :
    (t.after (Call.offsets offsets)).shared = t.shared.setOffsets offsets := by
  have hitems : offsets.length = t.shared.items.length := by
    rwa [h.shared_items, Array.length_toList]
  rw [h.shared_after, setOffsets_eq_foldl hitems, Call.offsets, List.foldl_map]
  refine List.foldl_ext _ _ _ fun s (offset, place) hmem => ?_
  obtain ⟨-, hlt, -⟩ := List.mem_zipIdx hmem
  have hword : place < UInt32.size := by
    have hsize := h.size_le
    rw [UInt32.size]
    omega
  have hplace : place.toUInt32.toNat = place := by
    rw [Nat.toUInt32_eq, UInt32.toNat_ofNat_of_lt' hword]
  rw [Call.afterShared, hplace]

end Dalvik.InternTable
