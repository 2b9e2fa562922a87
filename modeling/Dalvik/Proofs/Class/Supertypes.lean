/-
# Supertypes come first

The search marks a class when it enters it and lists it when it leaves it, so it can meet a class
that is marked and not listed yet.  Such a class is *open*: the search is still above it.  From
every open class the hierarchy leads up to whatever the search goes through next, and that is the
invariant.  So when a class is left, each of its supertypes has been listed, or is open and then
has the class above it: the two are on a cycle.

`Visits` is the search with no bound on how deep it goes; a derivation is a run that ends.  There is
one for every list of classes (`visits_foldl`), and no second one (`Visits.unique`).

* `Visits.open_of_open`: what a run leaves open was open before;
* `Visits.supertypesFirst`: the invariant, by induction on the run;
* `visits_in_place`: what is in order already stays as it is;
* `supertypes_first`: the statement for the order of writing.
-/
import Mathlib.Logic.Relation
import Dalvik.Proofs.Class.Order

namespace Dalvik

namespace ClassDef

variable {classes next : List ClassDef} {c p : ClassDef}

/-! ## 1. The hierarchy -/

/-- The supertypes of a class that are defined, each by its first definition. -/
def parents (classes : List ClassDef) (c : ClassDef) : List ClassDef :=
  c.supertypes.filterMap (definition? classes)

/-- `p` is above `c`: a supertype of it, or of a class above it. -/
def Below (classes : List ClassDef) (c p : ClassDef) : Prop :=
  Relation.TransGen (fun c p => p ∈ c.parents classes) c p

theorem kept_of_mem_parents (h : p ∈ c.parents classes) : Kept classes p := by
  obtain ⟨descriptor, -, hp⟩ := List.mem_filterMap.mp h
  exact (kept_of_definition? hp).1

theorem Kept.eq_of_descriptor (hc : Kept classes c) (hp : Kept classes p)
    (h : p.descriptor = c.descriptor) : p = c := by
  rw [Kept, h] at hp
  exact Option.some.inj (hp.symm.trans hc)

theorem definition?_firstDefinitions (descriptor : String) :
    definition? (firstDefinitions classes) descriptor = definition? classes descriptor := by
  induction classes with
  | nil => rfl
  | cons c rest ih =>
    rw [definition?, definition?, firstDefinitions]
    by_cases h : c.descriptor = descriptor
    · simp [h]
    · -- of the rest only what has the descriptor of `c` is left out, and that is not sought
      have hfilter : (fun d : ClassDef =>
          decide (d.descriptor != c.descriptor ∧ d.descriptor == descriptor)) =
            fun d => d.descriptor == descriptor := by
        funext d
        by_cases hd : d.descriptor = descriptor <;> simp [hd, Ne.symm h]
      rw [List.find?_cons_of_neg (by simpa using h), List.find?_cons_of_neg (by simpa using h),
        List.find?_filter, hfilter]
      exact ih

theorem parents_firstDefinitions : parents (firstDefinitions classes) = parents classes := by
  funext c
  rw [parents, parents, funext definition?_firstDefinitions]

/-! ## 2. The search without a bound -/

/-- The search after a class has been left. -/
def Search.leave (s : Search) (c : ClassDef) : Search :=
  { s with ordered := s.ordered ++ [c] }

/-- What the search makes of several classes, however deep it goes. -/
inductive Visits (parents : ClassDef → List ClassDef) : List ClassDef → Search → Search → Prop
  | nil {s : Search} : Visits parents [] s s
  | skip {c : ClassDef} {rest : List ClassDef} {s t : Search} (hc : c.descriptor ∈ s.entered)
      (hrest : Visits parents rest s t) : Visits parents (c :: rest) s t
  | enter {c : ClassDef} {rest : List ClassDef} {s t u : Search} (hc : c.descriptor ∉ s.entered)
      (habove : Visits parents (parents c) (s.enter c) t)
      (hrest : Visits parents rest (t.leave c) u) : Visits parents (c :: rest) s u

theorem Visits.unique {parents : ClassDef → List ClassDef} {s t t' : Search}
    (h : Visits parents next s t) (h' : Visits parents next s t') : t = t' := by
  induction h generalizing t' with
  | nil =>
    cases h'
    rfl
  | skip hc _ ih =>
    cases h' with
    | skip _ hrest => exact ih hrest
    | enter hn _ _ => exact absurd hc hn
  | enter hc _ _ ihabove ihrest =>
    cases h' with
    | skip hn _ => exact absurd hn hc
    | enter _ habove hrest =>
      cases ihabove habove
      exact ihrest hrest

theorem visit_of_entered {levels : Nat} {s : Search} (h : c.descriptor ∈ s.entered) :
    visit classes levels s c = s := by
  cases levels with
  | zero => rfl
  | succ levels => simp [visit, h]

theorem visit_of_not_entered {levels : Nat} {s : Search} (h : c.descriptor ∉ s.entered) :
    visit classes (levels + 1) s c =
      ((c.parents classes).foldl (visit classes levels) (s.enter c)).leave c := by
  simp [visit, h, parents, Search.enter, Search.leave]

/-- **The search ends.**  As many levels as there are classes not entered are as good as no
bound. -/
theorem visits_foldl (levels : Nat) {s : Search} (hnext : ∀ d ∈ next, d ∈ classes)
    (hs : (s.unentered classes).length ≤ levels) :
    Visits (parents classes) next s (next.foldl (visit classes levels) s) := by
  induction levels generalizing next s with
  | zero =>
    induction next with
    | nil => exact .nil
    | cons c rest ih =>
      refine .skip ?_ (ih fun d hd => hnext d (List.mem_cons_of_mem _ hd))
      exact (visit_extends 0 s c (hnext c (List.mem_cons_self ..)) hs).2
  | succ levels ihlevels =>
    induction next generalizing s with
    | nil => exact .nil
    | cons c rest ih =>
      have hc := hnext c (List.mem_cons_self ..)
      have hext := (visit_extends (levels + 1) s c hc hs).1
      have hrest := ih (fun d hd => hnext d (List.mem_cons_of_mem _ hd))
        (Nat.le_trans hext.unentered_le hs)
      rw [List.foldl_cons]
      by_cases hin : c.descriptor ∈ s.entered
      · rw [visit_of_entered hin] at hrest ⊢
        exact .skip hin hrest
      · rw [visit_of_not_entered hin] at hrest ⊢
        have hlt := Search.unentered_enter hc hin
        exact .enter hin (ihlevels (fun d hd => definition?_mem (kept_of_mem_parents hd))
          (by omega)) hrest

theorem visits_inOrder (classes : List ClassDef) :
    ∃ t, Visits (parents classes) (firstDefinitions classes) {} t ∧
      inOrder classes = t.ordered := by
  have h : Visits (parents (firstDefinitions classes)) (firstDefinitions classes) {}
      ((firstDefinitions classes).foldl
        (visit (firstDefinitions classes) (firstDefinitions classes).length) {}) :=
    visits_foldl _ (fun d hd => hd) (List.length_filter_le ..)
  rw [parents_firstDefinitions] at h
  exact ⟨_, h, rfl⟩

/-! ## 3. What a run leaves open -/

/-- A class that has been entered and not left. -/
def Search.Open (s : Search) (o : ClassDef) : Prop :=
  o.descriptor ∈ s.entered ∧ o ∉ s.ordered

variable {s t : Search}

theorem Visits.entered_mono {parents : ClassDef → List ClassDef} (h : Visits parents next s t)
    {x : String} (hx : x ∈ s.entered) : x ∈ t.entered := by
  induction h with
  | nil => exact hx
  | skip _ _ ih => exact ih hx
  | enter _ _ _ ihabove ihrest => exact ihrest (ihabove (List.mem_cons_of_mem _ hx))

theorem Visits.entered_of_mem {parents : ClassDef → List ClassDef} (h : Visits parents next s t)
    (hc : c ∈ next) : c.descriptor ∈ t.entered := by
  induction h with
  | nil => exact absurd hc List.not_mem_nil
  | skip hin hrest ih =>
    rcases List.mem_cons.mp hc with rfl | hc
    · exact hrest.entered_mono hin
    · exact ih hc
  | enter _ habove hrest _ ih =>
    rcases List.mem_cons.mp hc with rfl | hc
    · exact hrest.entered_mono (habove.entered_mono (List.mem_cons_self ..))
    · exact ih hc

/-- **A run opens nothing that it does not close.** -/
theorem Visits.open_of_open (h : Visits (parents classes) next s t)
    (hnext : ∀ d ∈ next, Kept classes d) {o : ClassDef} (ho : Kept classes o) (ht : t.Open o) :
    s.Open o := by
  induction h with
  | nil => exact ht
  | skip _ _ ih => exact ih (fun d hd => hnext d (List.mem_cons_of_mem _ hd)) ht
  | @enter c rest s t u _ _ _ ihabove ihrest =>
    obtain ⟨hin, hout⟩ := ihrest (fun d hd => hnext d (List.mem_cons_of_mem _ hd)) ht
    rw [Search.leave, List.mem_append, List.mem_singleton, not_or] at hout
    obtain ⟨hin, hs⟩ := ihabove (fun d hd => kept_of_mem_parents hd) ⟨hin, hout.1⟩
    refine ⟨?_, hs⟩
    rcases List.mem_cons.mp hin with heq | hin
    · exact absurd ((hnext c (List.mem_cons_self ..)).eq_of_descriptor ho heq) hout.2
    · exact hin

/-! ## 4. Supertypes first -/

/-- Of each class that is listed, the supertypes are listed before it, unless the class is above
them in turn. -/
def SupertypesFirst (classes l : List ClassDef) : Prop :=
  ∀ c ∈ l, ∀ p ∈ c.parents classes, ¬ Below classes p c → [p, c].Sublist l

theorem SupertypesFirst.leave {l : List ClassDef} (h : SupertypesFirst classes l)
    (hc : ∀ p ∈ c.parents classes, p ∈ l ∨ Below classes p c) :
    SupertypesFirst classes (l ++ [c]) := by
  intro d hd p hp hnot
  rcases List.mem_append.mp hd with hd | hd
  · exact (h d hd p hp hnot).trans (List.sublist_append_left ..)
  · rw [List.mem_singleton] at hd
    subst hd
    rcases hc p hp with hp | hbelow
    · exact (List.singleton_sublist.mpr hp).append (.refl [d])
    · exact absurd hbelow hnot

/-- **The invariant of the search.**  If every open class has above it whatever the search goes
through next, then supertypes are listed first. -/
theorem Visits.supertypesFirst (h : Visits (parents classes) next s t)
    (hnext : ∀ d ∈ next, Kept classes d)
    (hopen : ∀ o, Kept classes o → s.Open o → ∀ d ∈ next, Below classes o d)
    (hs : SupertypesFirst classes s.ordered) : SupertypesFirst classes t.ordered := by
  induction h with
  | nil => exact hs
  | skip _ _ ih =>
    exact ih (fun d hd => hnext d (List.mem_cons_of_mem _ hd))
      (fun o hk ho d hd => hopen o hk ho d (List.mem_cons_of_mem _ hd)) hs
  | @enter c rest s t u hc habove _ ihabove ihrest =>
    have hkept := hnext c (List.mem_cons_self ..)
    have hopen' : ∀ o, Kept classes o → (s.enter c).Open o → o = c ∨ s.Open o := by
      rintro o hk ⟨hin, hout⟩
      rcases List.mem_cons.mp hin with heq | hin
      · exact .inl (hkept.eq_of_descriptor hk heq)
      · exact .inr ⟨hin, hout⟩
    have ht : SupertypesFirst classes t.ordered := by
      refine ihabove (fun d hd => kept_of_mem_parents hd) (fun o hk ho d hd => ?_) hs
      rcases hopen' o hk ho with rfl | ho
      · exact .single hd
      · exact (hopen o hk ho c (List.mem_cons_self ..)).tail hd
    -- a supertype that is not listed now is open, and it was so before the class or is the class
    have hleave : ∀ p ∈ c.parents classes, p ∈ t.ordered ∨ Below classes p c := by
      intro p hp
      by_cases hin : p ∈ t.ordered
      · exact .inl hin
      · have hk := kept_of_mem_parents hp
        have ho := habove.open_of_open (fun d hd => kept_of_mem_parents hd) hk
          ⟨habove.entered_of_mem hp, hin⟩
        rcases hopen' p hk ho with rfl | ho
        · exact .inr (.single hp)
        · exact .inr (hopen p hk ho c (List.mem_cons_self ..))
    have hrest : Visits (parents classes) [c] s (t.leave c) := .enter hc habove .nil
    refine ihrest (fun d hd => hnext d (List.mem_cons_of_mem _ hd)) (fun o hk ho d hd => ?_)
      (ht.leave hleave)
    refine hopen o hk (hrest.open_of_open ?_ hk ho) d (List.mem_cons_of_mem _ hd)
    exact fun d hd => List.mem_singleton.mp hd ▸ hkept

/-! ## 5. What is in order already -/

theorem visits_of_entered {parents : ClassDef → List ClassDef}
    (h : ∀ d ∈ next, d.descriptor ∈ s.entered) : Visits parents next s s := by
  induction next with
  | nil => exact .nil
  | cons c rest ih =>
    rw [List.forall_mem_cons] at h
    exact .skip h.1 (ih h.2)

theorem mem_of_pair_sublist {front rest : List ClassDef} (hn : (front ++ c :: rest).Nodup)
    (h : [p, c].Sublist (front ++ c :: rest)) : p ∈ front := by
  obtain ⟨l, l', heq, hl, hl'⟩ := List.sublist_append_iff.mp h
  cases l with
  | cons x l =>
    rw [List.cons_append, List.cons.injEq] at heq
    exact hl.subset (heq.1 ▸ List.mem_cons_self ..)
  | nil =>
    -- then `c` would be in the rest a second time
    rw [List.nil_append] at heq
    subst heq
    have hc : c ∈ rest := by
      cases hl' with
      | cons _ h => exact h.subset (by simp)
      | cons_cons _ h => exact h.subset (by simp)
    exact absurd hc (List.nodup_cons.mp (List.nodup_append.mp hn).2.1).1

/-- **What is in order already stays as it is**: the search meets every class when all of its
supertypes are listed. -/
theorem visits_in_place {front rest : List ClassDef}
    (hn : ((front ++ rest).map (·.descriptor)).Nodup)
    (hfirst : ∀ c ∈ rest, ∀ p ∈ c.parents classes, [p, c].Sublist (front ++ rest))
    (hs : ∀ x, x ∈ s.entered ↔ x ∈ front.map (·.descriptor)) :
    ∃ t, Visits (parents classes) rest s t ∧ t.ordered = s.ordered ++ rest := by
  induction rest generalizing front s with
  | nil => exact ⟨s, .nil, (List.append_nil _).symm⟩
  | cons c rest ih =>
    have hc : c.descriptor ∉ s.entered := by
      intro h
      rw [List.map_append, List.nodup_append'] at hn
      exact hn.2.2 ((hs _).mp h) (by simp)
    have habove : Visits (parents classes) (c.parents classes) (s.enter c) (s.enter c) := by
      refine visits_of_entered fun p hp => List.mem_cons_of_mem _ ((hs _).mpr ?_)
      have hp := mem_of_pair_sublist (List.Nodup.of_map _ hn)
        (hfirst c (List.mem_cons_self ..) p hp)
      exact List.mem_map_of_mem hp
    rw [List.append_cons] at hn hfirst
    have hleave : ∀ x, x ∈ ((s.enter c).leave c).entered ↔
        x ∈ (front ++ [c]).map (·.descriptor) := fun x => by
      simp [Search.leave, Search.enter, hs, or_comm, eq_comm]
    obtain ⟨t, hrest, ht⟩ := ih hn (fun d hd => hfirst d (List.mem_cons_of_mem _ hd)) hleave
    exact ⟨t, .enter hc habove hrest, by simpa [Search.leave, Search.enter] using ht⟩

/-! ## 6. The order of writing -/

/-- **The order of classes.**  The search ends, in one way only.  What it lists are the first
definitions of all descriptors, each once.  A class that is defined comes before each class of which
it is a supertype, unless the two are on a cycle; and classes that are in such an order without
cycles stay in it. -/
theorem supertypes_first (classes : List ClassDef) :
    (∃ t, (∀ u, Visits (parents classes) (firstDefinitions classes) {} u ↔ u = t) ∧
      inOrder classes = t.ordered) ∧
    ((inOrder classes).map (·.descriptor)).Nodup ∧
    (∀ x, x ∈ (inOrder classes).map (·.descriptor) ↔ x ∈ classes.map (·.descriptor)) ∧
    (∀ d, d ∈ inOrder classes ↔ definition? classes d.descriptor = some d) ∧
    (∀ c ∈ inOrder classes, ∀ p ∈ c.parents classes, ¬ Below classes p c →
      [p, c].Sublist (inOrder classes)) ∧
    ((∀ c ∈ firstDefinitions classes, ∀ p ∈ c.parents classes, ¬ Below classes p c →
        [p, c].Sublist (firstDefinitions classes)) →
      (∀ c ∈ firstDefinitions classes, ¬ Below classes c c) →
        inOrder classes = firstDefinitions classes) := by
  obtain ⟨t, ht, horder⟩ := visits_inOrder classes
  have hkept : ∀ d ∈ firstDefinitions classes, Kept classes d := fun d => mem_firstDefinitions.mp
  refine ⟨⟨t, fun u => ⟨fun hu => hu.unique ht, fun hu => hu ▸ ht⟩, horder⟩, ?_, ?_,
    fun d => mem_inOrder, ?_, fun hfirst hcycle => ?_⟩
  · exact ((inOrder_perm classes).map _).nodup_iff.mpr (nodup_firstDefinitions classes)
  · intro x
    simp only [List.mem_map, mem_inOrder]
    constructor
    · rintro ⟨d, hd, rfl⟩
      exact ⟨d, definition?_mem hd, rfl⟩
    · rintro ⟨d, hd, rfl⟩
      exact exists_kept_of_mem hd
  · rw [horder]
    exact ht.supertypesFirst hkept (fun o _ ho => absurd ho.1 List.not_mem_nil)
      fun d hd => absurd hd List.not_mem_nil
  · have hplace : ∀ c ∈ firstDefinitions classes, ∀ p ∈ c.parents classes,
        [p, c].Sublist (firstDefinitions classes) := fun c hc p hp =>
      hfirst c hc p hp fun hbelow => hcycle c hc (.head hp hbelow)
    obtain ⟨u, hu, hordered⟩ := @visits_in_place classes {} [] (firstDefinitions classes)
      (nodup_firstDefinitions classes) hplace (by simp)
    rw [horder, ht.unique hu, hordered]
    rfl

theorem not_below_of_parents {c p : ClassDef} (h : c.parents classes = []) :
    ¬ Below classes c p := by
  intro hbelow
  obtain ⟨d, hd, -⟩ := Relation.TransGen.head'_iff.mp hbelow
  rw [h] at hd
  exact List.not_mem_nil hd

def parentClass : ClassDef where
  descriptor := "LParent;"
  superclass? := some "Ljava/lang/Object;"

def ifaceClass : ClassDef where
  descriptor := "LIface;"

def childClass : ClassDef where
  descriptor := "LChild;"
  superclass? := some "LParent;"
  interfaces := ["LIface;"]

/-- A class before its supertypes, two on a cycle, and a second definition. -/
def tangled : List ClassDef :=
  [childClass, parentClass, ifaceClass,
   { descriptor := "LLeft;", superclass? := some "LRight;" },
   { descriptor := "LRight;", superclass? := some "LLeft;" },
   { parentClass with superclass? := some "LChild;" }]

/-- A class after its superclass, and its interface missing. -/
def untangled : List ClassDef :=
  [parentClass, childClass]

/-- Supertypes of the tangled classes come first, and the untangled classes stay as they are. -/
theorem supertypes_first_tangled :
    [parentClass, childClass].Sublist (inOrder tangled) ∧
      [ifaceClass, childClass].Sublist (inOrder tangled) ∧ inOrder untangled = untangled := by
  have hchild : childClass.parents tangled = [parentClass, ifaceClass] := by rfl
  have hin : childClass ∈ inOrder tangled := mem_inOrder.mpr rfl
  have hfirst := (supertypes_first tangled).2.2.2.2.1 childClass hin
  refine ⟨hfirst _ (by simp [hchild]) (not_below_of_parents rfl),
    hfirst _ (by simp [hchild]) (not_below_of_parents rfl), ?_⟩
  have hparent : parentClass.parents untangled = [] := by rfl
  have hchild' : childClass.parents untangled = [parentClass] := by rfl
  have hcases : ∀ c ∈ firstDefinitions untangled, c = parentClass ∨ c = childClass :=
    fun c hc => List.mem_pair.mp hc
  refine (supertypes_first untangled).2.2.2.2.2 (fun c hc p hp _ => ?_) fun c hc hcycle => ?_
  · rcases hcases c hc with rfl | rfl
    · exact absurd (hparent ▸ hp) List.not_mem_nil
    · rw [hchild', List.mem_singleton] at hp
      exact hp ▸ .refl _
  · rcases hcases c hc with rfl | rfl
    · exact not_below_of_parents hparent hcycle
    · obtain ⟨d, hd, hr⟩ := Relation.TransGen.head'_iff.mp hcycle
      rw [hchild', List.mem_singleton] at hd
      subst hd
      rcases hr.cases_head with heq | ⟨e, he, -⟩
      · exact absurd (congrArg ClassDef.descriptor heq) (by decide)
      · exact absurd (hparent ▸ he) List.not_mem_nil

end ClassDef

end Dalvik
