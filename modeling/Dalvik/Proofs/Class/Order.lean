/-
# The search lists every class once

`visit` is given as many levels as there are classes, and each level enters a class of its own.  So
the levels never run out, the search leaves what it enters, and it lists each class that is the
first definition of its descriptor exactly once.

* `Search.Extends` is what any part of the search does: the classes newly listed are those newly
  entered;
* `visit_extends` shows it for a visit, with the number of classes not entered yet as the bound of
  the levels;
* `inOrder_perm` and `mem_inOrder` say it of the whole search.
-/
import Mathlib.Data.List.Nodup
import Mathlib.Data.List.Perm.Subperm
import Dalvik.Container.ClassOrder

namespace Dalvik

namespace ClassDef

/-- A class is kept if it is the first definition of its descriptor. -/
def Kept (classes : List ClassDef) (d : ClassDef) : Prop :=
  definition? classes d.descriptor = some d

/-! ## 1. First definitions -/

theorem mem_firstDefinitions {classes : List ClassDef} {d : ClassDef} :
    d ∈ firstDefinitions classes ↔ Kept classes d := by
  induction classes with
  | nil => simp [firstDefinitions, Kept, definition?]
  | cons c rest ih =>
    rw [firstDefinitions, List.mem_cons, List.mem_filter, ih]
    by_cases h : c.descriptor = d.descriptor
    · simp [Kept, definition?, h, eq_comm]
    · have hne : d ≠ c := fun e => h (e ▸ rfl)
      simp [Kept, definition?, h, hne, Ne.symm h]

theorem nodup_firstDefinitions (classes : List ClassDef) :
    ((firstDefinitions classes).map (·.descriptor)).Nodup := by
  induction classes with
  | nil => exact List.nodup_nil
  | cons c rest ih =>
    rw [firstDefinitions, List.map_cons, List.nodup_cons]
    constructor
    · intro h
      obtain ⟨d, hd, e⟩ := List.mem_map.mp h
      simp [e] at hd
    · exact ih.sublist (List.filter_sublist.map _)

theorem definition?_mem {classes : List ClassDef} {descriptor : String} {d : ClassDef}
    (h : definition? classes descriptor = some d) : d ∈ classes :=
  List.mem_of_find?_eq_some h

theorem kept_of_definition? {classes : List ClassDef} {descriptor : String} {d : ClassDef}
    (h : definition? classes descriptor = some d) : Kept classes d ∧ d.descriptor = descriptor := by
  have hd : d.descriptor = descriptor := by simpa using List.find?_some h
  exact ⟨by rw [Kept, hd, h], hd⟩

/-- Of each descriptor that is defined one definition is kept. -/
theorem exists_kept_of_mem {classes : List ClassDef} {d : ClassDef} (hd : d ∈ classes) :
    ∃ d', Kept classes d' ∧ d'.descriptor = d.descriptor := by
  have hsome : (definition? classes d.descriptor).isSome = true := by
    rw [definition?, List.find?_isSome]
    exact ⟨d, hd, beq_self_eq_true _⟩
  obtain ⟨d', hd'⟩ := Option.isSome_iff_exists.mp hsome
  exact ⟨d', kept_of_definition? hd'⟩

/-- Where no descriptor is defined twice, every class is kept. -/
theorem kept_iff_mem {classes : List ClassDef} (hn : (classes.map (·.descriptor)).Nodup)
    {d : ClassDef} : d.Kept classes ↔ d ∈ classes := by
  constructor
  · exact definition?_mem
  · intro hd
    obtain ⟨d', hk, hsame⟩ := exists_kept_of_mem hd
    exact List.inj_on_of_nodup_map hn (definition?_mem hk) hd hsame ▸ hk

/-! ## 2. What a part of the search does -/

/-- The classes listed between two states of the search are in `classes`, and they are those entered
between the two, each once. -/
def Search.Extends (classes : List ClassDef) (s t : Search) : Prop :=
  ∃ new : List ClassDef, t.ordered = s.ordered ++ new ∧ (∀ d ∈ new, d ∈ classes) ∧
    (∀ x, x ∈ t.entered ↔ x ∈ s.entered ∨ x ∈ new.map (·.descriptor)) ∧
    (∀ x ∈ new.map (·.descriptor), x ∉ s.entered) ∧ (new.map (·.descriptor)).Nodup

namespace Search.Extends

variable {classes : List ClassDef} {s t u : Search}

theorem refl (s : Search) : Extends classes s s :=
  ⟨[], by simp⟩

theorem trans (h₁ : Extends classes s t) (h₂ : Extends classes t u) : Extends classes s u := by
  obtain ⟨new₁, ho₁, hc₁, he₁, hf₁, hn₁⟩ := h₁
  obtain ⟨new₂, ho₂, hc₂, he₂, hf₂, hn₂⟩ := h₂
  refine ⟨new₁ ++ new₂, by rw [ho₂, ho₁, List.append_assoc], ?_, ?_, ?_, ?_⟩
  · intro d hd
    exact (List.mem_append.mp hd).elim (hc₁ d) (hc₂ d)
  · intro x
    rw [he₂, he₁, List.map_append, List.mem_append, or_assoc]
  · intro x hx
    rw [List.map_append, List.mem_append] at hx
    rcases hx with hx | hx
    · exact hf₁ x hx
    · exact fun h => hf₂ x hx ((he₁ x).mpr (.inl h))
  · rw [List.map_append]
    exact List.nodup_append'.mpr ⟨hn₁, hn₂, fun x hx hx' => hf₂ x hx' ((he₁ x).mpr (.inr hx))⟩

theorem entered (h : Extends classes s t) {x : String} (hx : x ∈ s.entered) : x ∈ t.entered := by
  obtain ⟨new, -, -, he, -⟩ := h
  exact (he x).mpr (.inl hx)

end Search.Extends

/-! ## 3. The levels never run out -/

/-- The classes that the search has not entered. -/
def Search.unentered (classes : List ClassDef) (s : Search) : List ClassDef :=
  classes.filter fun d => !s.entered.contains d.descriptor

/-- The search after a class has been entered. -/
def Search.enter (s : Search) (c : ClassDef) : Search :=
  { s with entered := c.descriptor :: s.entered }

theorem Search.Extends.unentered_le {classes : List ClassDef} {s t : Search}
    (h : Extends classes s t) : (t.unentered classes).length ≤ (s.unentered classes).length := by
  refine (List.monotone_filter_right classes fun d hd => ?_).length_le
  simp only [List.contains_eq_mem, Bool.not_eq_true', decide_eq_false_iff_not] at hd ⊢
  exact fun hs => hd (h.entered hs)

theorem Search.unentered_enter {classes : List ClassDef} {s : Search} {c : ClassDef}
    (hc : c ∈ classes) (h : c.descriptor ∉ s.entered) :
    ((s.enter c).unentered classes).length < (s.unentered classes).length := by
  have hs : c ∈ s.unentered classes := by simp [unentered, hc, h]
  have hsub : ((s.enter c).unentered classes).Sublist (s.unentered classes) := by
    refine List.monotone_filter_right classes fun d hd => ?_
    simp only [enter, List.contains_eq_mem, Bool.not_eq_true', decide_eq_false_iff_not,
      List.mem_cons, not_or] at hd ⊢
    exact hd.2
  rcases Nat.lt_or_eq_of_le hsub.length_le with hlt | heq
  · exact hlt
  · have hs' : c ∈ (s.enter c).unentered classes := by rwa [hsub.eq_of_length heq]
    simp [unentered, enter] at hs'

/-- Leaving a class lists it after what was listed above it. -/
theorem Search.Extends.leave {classes : List ClassDef} {s t : Search} {c : ClassDef}
    (hc : c ∈ classes) (hs : c.descriptor ∉ s.entered) (h : Extends classes (s.enter c) t) :
    Extends classes s { t with ordered := t.ordered ++ [c] } := by
  obtain ⟨new, ho, hm, he, hf, hn⟩ := h
  have hcn : c.descriptor ∉ new.map (·.descriptor) := fun hx =>
    hf _ hx (List.mem_cons_self ..)
  refine ⟨new ++ [c], by simp [ho, enter], ?_, ?_, ?_, ?_⟩
  · intro d hd
    rcases List.mem_append.mp hd with hd | hd
    · exact hm d hd
    · exact List.mem_singleton.mp hd ▸ hc
  · intro x
    simp only [he, enter, List.mem_cons, List.map_append, List.mem_append, List.map_cons,
      List.map_nil, List.not_mem_nil, or_false]
    tauto
  · intro x hx
    rw [List.map_append, List.mem_append] at hx
    rcases hx with hx | hx
    · exact fun h => hf x hx (List.mem_cons_of_mem _ h)
    · exact List.mem_singleton.mp hx ▸ hs
  · rw [List.map_append]
    refine List.nodup_append'.mpr ⟨hn, List.nodup_singleton _, fun x hx hx' => ?_⟩
    rw [List.mem_singleton.mp hx'] at hx
    exact hcn hx

/-- A search through several classes, if a visit of each extends the search. -/
theorem foldl_extends {classes : List ClassDef} {levels : Nat} {visit : Search → ClassDef → Search}
    (hv : ∀ s c, c ∈ classes → (s.unentered classes).length ≤ levels →
      s.Extends classes (visit s c) ∧ c.descriptor ∈ (visit s c).entered)
    {next : List ClassDef} (hn : ∀ d ∈ next, d ∈ classes) {s : Search}
    (hs : (s.unentered classes).length ≤ levels) :
    s.Extends classes (next.foldl visit s) ∧
      ∀ d ∈ next, d.descriptor ∈ (next.foldl visit s).entered := by
  induction next generalizing s with
  | nil => exact ⟨.refl s, by simp⟩
  | cons d rest ih =>
    obtain ⟨h₁, hd⟩ := hv s d (hn d (List.mem_cons_self ..)) hs
    obtain ⟨h₂, hr⟩ := ih (fun e he => hn e (List.mem_cons_of_mem _ he))
      (Nat.le_trans h₁.unentered_le hs)
    refine ⟨h₁.trans h₂, ?_⟩
    rintro e (_ | ⟨_, he⟩)
    · exact h₂.entered hd
    · exact hr e he

/-- **A visit.**  With as many levels as classes are not entered, a visit enters the class and
leaves everything that it enters. -/
theorem visit_extends {classes : List ClassDef} (levels : Nat) (s : Search) (c : ClassDef)
    (hc : c ∈ classes) (hs : (s.unentered classes).length ≤ levels) :
    s.Extends classes (visit classes levels s c) ∧
      c.descriptor ∈ (visit classes levels s c).entered := by
  induction levels generalizing s c with
  | zero =>
    have he : c.descriptor ∈ s.entered := by
      by_contra h
      have hu : c ∈ s.unentered classes := by simp [Search.unentered, hc, h]
      rw [List.length_eq_zero_iff.mp (Nat.le_zero.mp hs)] at hu
      exact List.not_mem_nil hu
    exact ⟨.refl s, he⟩
  | succ levels ih =>
    rw [visit]
    split
    case isTrue h => exact ⟨.refl s, by simpa using h⟩
    case isFalse h =>
      have hne : c.descriptor ∉ s.entered := by simpa using h
      have hlt := Search.unentered_enter hc hne
      have hnext : ∀ d ∈ c.supertypes.filterMap (definition? classes), d ∈ classes := by
        intro d hd
        obtain ⟨x, -, hx⟩ := List.mem_filterMap.mp hd
        exact definition?_mem hx
      have habove := foldl_extends (s := s.enter c) ih hnext (by omega)
      refine ⟨habove.1.leave hc hne, ?_⟩
      exact habove.1.entered (List.mem_cons_self ..)

/-! ## 4. The whole search -/

/-- **The order of classes** lists the first definition of each descriptor once. -/
theorem inOrder_perm (classes : List ClassDef) :
    (inOrder classes).Perm (firstDefinitions classes) := by
  have h := foldl_extends (s := {}) (visit_extends (firstDefinitions classes).length)
    (fun d hd => hd) (List.length_filter_le ..)
  obtain ⟨⟨new, ho, hm, he, -, hn⟩, hall⟩ := h
  have hin : inOrder classes = new := ho
  rw [hin]
  refine (List.subperm_of_subset (List.Nodup.of_map _ hn) hm).perm_of_length_le ?_
  have hsub : (firstDefinitions classes).map (·.descriptor) ⊆ new.map (·.descriptor) := by
    intro x hx
    obtain ⟨d, hd, rfl⟩ := List.mem_map.mp hx
    simpa using (he _).mp (hall d hd)
  simpa using ((nodup_firstDefinitions classes).subperm hsub).length_le

/-- A class is written if it is the first definition of its descriptor. -/
theorem mem_inOrder {classes : List ClassDef} {d : ClassDef} :
    d ∈ inOrder classes ↔ Kept classes d :=
  (inOrder_perm classes).mem_iff.trans mem_firstDefinitions

end ClassDef

end Dalvik
