/-
# Runs that succeed

A run in `Except` succeeds exactly if its steps do, one after the other.  A run over a state
succeeds likewise, each step from the state that the last one left; one that fails leaves the state
of the step that failed.  These lemmas take runs apart, and are used instead of unfolding the
monads.
-/
import Mathlib.Data.List.Forall2

namespace Dalvik

/-! ## 1. Without a state -/

variable {ε σ α β : Type}

theorem bind_eq_ok {x : Except ε α} {f : α → Except ε β} {b : β} :
    (x >>= f) = .ok b ↔ ∃ a, x = .ok a ∧ f a = .ok b := by
  cases x <;> simp [bind, Except.bind]

/-- What comes after a step only matters where the step succeeds. -/
theorem bind_congr_ok {x : Except ε α} {f g : α → Except ε β} (h : ∀ a, x = .ok a → f a = g a) :
    x >>= f = x >>= g := by
  cases x with
  | error => rfl
  | ok a => exact h a rfl

/-- What is answered does not depend on why a step fails. -/
theorem toOption_bind_congr {x y : Except ε α} (h : x.toOption = y.toOption)
    (f : α → Except ε β) : (x >>= f).toOption = (y >>= f).toOption := by
  cases x with
  | error =>
    cases y with
    | error => rfl
    | ok => cases h
  | ok =>
    cases y with
    | error => cases h
    | ok =>
      cases h
      rfl

theorem map_eq_ok {x : Except ε α} {f : α → β} {b : β} :
    x.map f = .ok b ↔ ∃ a, x = .ok a ∧ f a = b := by
  cases x <;> simp [Except.map]

theorem map_eq_error {x : Except ε α} {f : α → β} {e : ε} :
    x.map f = .error e ↔ x = .error e := by
  cases x <;> simp [Except.map]

theorem map_eq_bind {x : Except ε α} {f : α → β} : x.map f = x >>= fun a => pure (f a) := by
  cases x <;> rfl

theorem mapError_eq_ok {x : Except ε α} {f : ε → ε} {a : α} : x.mapError f = .ok a ↔ x = .ok a := by
  cases x <;> simp [Except.mapError]

theorem pure_eq_ok {a b : α} : (pure a : Except ε α) = .ok b ↔ a = b := by
  simp [pure, Except.pure]

theorem throw_ne_ok {e : ε} {a : α} : (throw e : Except ε α) ≠ .ok a := by
  simp [throw, throwThe, MonadExceptOf.throw]

theorem exists_of_isOk {x : Except ε α} (h : x.isOk = true) : ∃ a, x = .ok a := by
  cases x with
  | error => cases h
  | ok a => exact ⟨a, rfl⟩

theorem pure_ne_error {e : ε} {a : α} : (pure a : Except ε α) ≠ .error e := by
  simp [pure, Except.pure]

/-- A run does not fail for a cause for which no step of it fails. -/
theorem bind_ne_error {x : Except ε α} {f : α → Except ε β} {e : ε} (hx : x ≠ .error e)
    (hf : ∀ a, x = .ok a → f a ≠ .error e) : (x >>= f) ≠ .error e := by
  cases x with
  | error c =>
    intro h
    cases h
    exact hx rfl
  | ok a => exact hf a rfl

theorem throw_bind_ne_error {f : α → Except ε β} {c e : ε} (h : c ≠ e) :
    ((throw c : Except ε α) >>= f) ≠ .error e :=
  bind_ne_error (by simpa [throw, throwThe, MonadExceptOf.throw] using h) fun _ ha =>
    absurd ha throw_ne_ok

/-- A step over a list succeeds exactly if it does at every item. -/
theorem mapM_eq_ok {f : α → Except ε β} :
    ∀ {l : List α} {r : List β}, l.mapM f = .ok r ↔ List.Forall₂ (fun a b => f a = .ok b) l r
  | [], r => by
    simp only [List.mapM_nil, pure_eq_ok, List.forall₂_nil_left_iff]
    exact eq_comm
  | a :: l, r => by
    simp only [List.mapM_cons, bind_eq_ok, pure_eq_ok, List.forall₂_cons_left_iff]
    constructor
    · rintro ⟨b, hb, bs, hbs, rfl⟩
      exact ⟨b, bs, hb, mapM_eq_ok.mp hbs, rfl⟩
    · rintro ⟨b, bs, hb, hbs, rfl⟩
      exact ⟨b, hb, bs, mapM_eq_ok.mpr hbs, rfl⟩

/-- Items related one by one have partners in common, if each two of them have one. -/
theorem exists_forall₂ {γ : Type} {R : α → β → Prop} {S : α → γ → Prop} {T : β → γ → Prop}
    {as : List α} {bs : List β} (h : List.Forall₂ R as bs)
    (hs : ∀ a b, R a b → ∃ c, S a c ∧ T b c) :
    ∃ cs, List.Forall₂ S as cs ∧ List.Forall₂ T bs cs := by
  induction h with
  | nil => exact ⟨[], .nil, .nil⟩
  | cons hr _ ih =>
    obtain ⟨c, hsc, htc⟩ := hs _ _ hr
    obtain ⟨cs, hscs, htcs⟩ := ih
    exact ⟨c :: cs, .cons hsc hscs, .cons htc htcs⟩

/-- Items related to those of a list that has been zipped with others, to which they are related
too. -/
theorem forall₂_of_zip {γ : Type} {R : α → β → Prop} {P : α × β → γ → Prop} {as : List α}
    {bs : List β} {cs : List γ} (h : List.Forall₂ R as bs) (hp : List.Forall₂ P (as.zip bs) cs) :
    List.Forall₂ (fun a c => ∃ b, R a b ∧ P (a, b) c) as cs := by
  induction h generalizing cs with
  | nil =>
    cases hp
    exact .nil
  | cons hr _ ih =>
    cases hp with
    | cons hp hrest => exact .cons ⟨_, hr, hp⟩ (ih hrest)

theorem exists_of_mem_left {R : α → β → Prop} {as : List α} {bs : List β}
    (h : List.Forall₂ R as bs) : ∀ a ∈ as, ∃ b ∈ bs, R a b := by
  induction h with
  | nil => simp
  | cons hr _ ih =>
    rintro a (_ | ⟨_, ha⟩)
    · exact ⟨_, List.mem_cons_self .., hr⟩
    · obtain ⟨b, hb, hr⟩ := ih a ha
      exact ⟨b, List.mem_cons_of_mem _ hb, hr⟩

/-- Where some items are related in pairs, so are what they correspond to. -/
theorem pairwise_of_forall₂ {P : α → β → Prop} {R : α → α → Prop} {S : β → β → Prop} {as : List α}
    {bs : List β} (h : List.Forall₂ P as bs) (hr : as.Pairwise R)
    (hs : ∀ ⦃a a' b b'⦄, P a b → P a' b' → R a a' → S b b') : bs.Pairwise S := by
  induction h with
  | nil => exact .nil
  | @cons a b _ _ hab hrest ih =>
    obtain ⟨hfirst, hlater⟩ := List.pairwise_cons.mp hr
    refine .cons (fun b' hb' => ?_) (ih hlater)
    obtain ⟨a', ha', hab'⟩ := exists_of_mem_left hrest.flip b' hb'
    exact hs hab hab' (hfirst a' ha')

theorem ok_of_mapM {f : α → Except ε β} {l : List α} {r : List β} (h : l.mapM f = .ok r) :
    ∀ a ∈ l, ∃ b, f a = .ok b := by
  intro a ha
  obtain ⟨b, -, hb⟩ := exists_of_mem_left (mapM_eq_ok.mp h) a ha
  exact ⟨b, hb⟩

theorem mapM_congr {f g : α → Except ε β} {l : List α} (h : ∀ a ∈ l, f a = g a) :
    l.mapM f = l.mapM g := by
  induction l with
  | nil => rfl
  | cons a l ih =>
    rw [List.forall_mem_cons] at h
    rw [List.mapM_cons, List.mapM_cons, h.1, ih h.2]

theorem mapM_ne_error {f : α → Except ε β} {e : ε} {l : List α} (h : ∀ a ∈ l, f a ≠ .error e) :
    l.mapM f ≠ .error e := by
  induction l with
  | nil => exact pure_ne_error
  | cons a l ih =>
    rw [List.forall_mem_cons] at h
    rw [List.mapM_cons]
    exact bind_ne_error h.1 fun _ _ => bind_ne_error (ih h.2) fun _ _ => pure_ne_error

/-- A step over a list fails with what the first item at which it fails gives. -/
theorem mapM_eq_error {f : α → Except ε β} {e : ε} {l : List α} :
    l.mapM f = .error e ↔ ∃ before a after, l = before ++ a :: after ∧
      (∀ b ∈ before, ∃ r, f b = .ok r) ∧ f a = .error e := by
  induction l with
  | nil => simp [pure_ne_error]
  | cons a l ih =>
    rw [List.mapM_cons]
    cases ha : f a with
    | error c =>
      constructor
      · intro h
        obtain rfl : c = e := Except.error.inj h
        exact ⟨[], a, l, rfl, by simp, ha⟩
      · rintro ⟨before, b, after, hl, hok, hb⟩
        -- no item before the one that fails can be the first
        cases before with
        | nil =>
          obtain ⟨rfl, -⟩ := List.cons.inj hl
          rw [← ha, hb]
          rfl
        | cons b' before =>
          obtain ⟨rfl, -⟩ := List.cons.inj hl
          obtain ⟨r, hr⟩ := hok a (List.mem_cons_self ..)
          rw [ha] at hr
          cases hr
    | ok r =>
      have hrest : ((do let r' ← l.mapM f; pure (r :: r')) : Except ε (List β)) = .error e ↔
          l.mapM f = .error e := by
        cases l.mapM f <;> simp [bind, Except.bind, pure, Except.pure]
      refine hrest.trans (ih.trans ⟨?_, ?_⟩)
      · rintro ⟨before, b, after, rfl, hok, hb⟩
        exact ⟨a :: before, b, after, rfl, List.forall_mem_cons.mpr ⟨⟨r, ha⟩, hok⟩, hb⟩
      · rintro ⟨before, b, after, hl, hok, hb⟩
        cases before with
        | nil =>
          obtain ⟨rfl, -⟩ := List.cons.inj hl
          rw [ha] at hb
          cases hb
        | cons b' before =>
          obtain ⟨-, rfl⟩ := List.cons.inj hl
          exact ⟨before, b, after, rfl, (List.forall_mem_cons.mp hok).2, hb⟩

/-- A step that succeeds at every item succeeds over the list. -/
theorem mapM_ok {f : α → Except ε β} {l : List α} (h : ∀ a ∈ l, ∃ b, f a = .ok b) :
    ∃ r, l.mapM f = .ok r := by
  cases hm : l.mapM f with
  | ok r => exact ⟨r, rfl⟩
  | error e =>
    obtain ⟨before, a, after, rfl, -, ha⟩ := mapM_eq_error.mp hm
    obtain ⟨b, hb⟩ := h a (by simp)
    rw [hb] at ha
    cases ha

theorem exists_of_mapM {f : α → Except ε β} {l : List α} {r : List β} (h : l.mapM f = .ok r) :
    ∀ b ∈ r, ∃ a ∈ l, f a = .ok b :=
  exists_of_mem_left (mapM_eq_ok.mp h).flip

/-- The run fails only with what `P` says. -/
def FailsWith (P : ε → Prop) (x : Except ε α) : Prop :=
  ∀ e, x = .error e → P e

section FailsWith

variable {P : ε → Prop}

theorem failsWith_ok {a : α} : FailsWith P (.ok a) := by
  simp [FailsWith]

@[simp] theorem failsWith_pure {a : α} : FailsWith P (pure a) :=
  failsWith_ok

@[simp] theorem failsWith_error {e : ε} : FailsWith P (.error e : Except ε α) ↔ P e := by
  simp [FailsWith]

@[simp] theorem failsWith_throw {e : ε} : FailsWith P (throw e : Except ε α) ↔ P e :=
  failsWith_error

@[simp] theorem failsWith_bind {x : Except ε α} {f : α → Except ε β} :
    FailsWith P (x >>= f) ↔ FailsWith P x ∧ ∀ a, x = .ok a → FailsWith P (f a) := by
  cases x <;> simp [FailsWith, bind, Except.bind]

@[simp] theorem failsWith_map {x : Except ε α} {f : α → β} :
    FailsWith P (f <$> x) ↔ FailsWith P x := by
  cases x <;> simp [FailsWith, Functor.map, Except.map]

theorem failsWith_mapM {f : α → Except ε β} {l : List α} (h : ∀ a ∈ l, FailsWith P (f a)) :
    FailsWith P (l.mapM f) := by
  intro e he
  obtain ⟨before, a, after, rfl, -, ha⟩ := mapM_eq_error.mp he
  exact h a (by simp) e ha

theorem failsWith_of_ok {x : Except ε α} {a : α} (h : x = .ok a) : FailsWith P x := by
  rw [h]
  exact failsWith_ok

end FailsWith

/-! ## 2. Over a state -/

theorem stateBind_eq_ok {x : EStateM ε σ α} {f : α → EStateM ε σ β} {s t : σ} {b : β} :
    (x >>= f) s = .ok b t ↔ ∃ a u, x s = .ok a u ∧ f a u = .ok b t := by
  have hrun : (x >>= f) s = EStateM.bind x f s := rfl
  rw [hrun, EStateM.bind]
  cases x s <;> simp

theorem stateBind_eq_error {x : EStateM ε σ α} {f : α → EStateM ε σ β} {s t : σ} {e : ε} :
    (x >>= f) s = .error e t ↔
      x s = .error e t ∨ ∃ a u, x s = .ok a u ∧ f a u = .error e t := by
  have hrun : (x >>= f) s = EStateM.bind x f s := rfl
  rw [hrun, EStateM.bind]
  cases x s <;> simp

theorem stateBind_of_ok {x : EStateM ε σ α} {s t : σ} {a : α} (h : x s = .ok a t)
    (f : α → EStateM ε σ β) : (x >>= f) s = f a t := by
  have hrun : (x >>= f) s = EStateM.bind x f s := rfl
  rw [hrun, EStateM.bind, h]

/-- A run does not fail for a cause for which no step of it fails. -/
theorem stateBind_ne_error {x : EStateM ε σ α} {f : α → EStateM ε σ β} {s : σ} {e : ε}
    (hx : ∀ t, x s ≠ .error e t) (hf : ∀ a u, x s = .ok a u → ∀ t, f a u ≠ .error e t) (t : σ) :
    (x >>= f) s ≠ .error e t := by
  intro h
  rcases stateBind_eq_error.mp h with h | ⟨a, u, ha, h⟩
  · exact hx t h
  · exact hf a u ha t h

theorem statePure_eq_ok {a b : α} {s t : σ} :
    (pure a : EStateM ε σ α) s = .ok b t ↔ a = b ∧ s = t := by
  simp [pure, EStateM.pure]

theorem statePure_ne_error {a : α} {s t : σ} {e : ε} :
    (pure a : EStateM ε σ α) s ≠ .error e t := by
  simp [pure, EStateM.pure]

theorem stateThrow_ne_ok {a : α} {s t : σ} {e : ε} :
    (throw e : EStateM ε σ α) s ≠ .ok a t := by
  intro h
  cases h

theorem stateThrow_eq_error {s t : σ} {e c : ε} :
    (throw e : EStateM ε σ α) s = .error c t ↔ e = c ∧ s = t := by
  have hrun : (throw e : EStateM ε σ α) s = .error e s := rfl
  simp [hrun]

theorem stateThrow_bind_ne_error {f : α → EStateM ε σ β} {c e : ε} {s : σ} (h : c ≠ e) (t : σ) :
    ((throw c : EStateM ε σ α) >>= f) s ≠ .error e t :=
  stateBind_ne_error (fun _ he => h (stateThrow_eq_error.mp he).1)
    (fun _ _ ha => absurd ha stateThrow_ne_ok) t

theorem stateGet_eq_ok {s t u : σ} : (get : EStateM ε σ σ) s = .ok u t ↔ s = u ∧ s = t := by
  have hrun : (get : EStateM ε σ σ) s = .ok s s := rfl
  simp [hrun]

theorem stateGet_ne_error {s t : σ} {e : ε} : (get : EStateM ε σ σ) s ≠ .error e t := by
  intro h
  cases h

theorem stateModifyGet_eq_ok {f : σ → α × σ} {s t : σ} {a : α} :
    (modifyGet f : EStateM ε σ α) s = .ok a t ↔ f s = (a, t) := by
  have hrun : (modifyGet f : EStateM ε σ α) s = .ok (f s).1 (f s).2 := rfl
  rw [hrun, EStateM.Result.ok.injEq, Prod.ext_iff]

theorem stateModifyGet_ne_error {f : σ → α × σ} {s t : σ} {e : ε} :
    (modifyGet f : EStateM ε σ α) s ≠ .error e t := by
  intro h
  cases h

theorem stateModify_eq_ok {f : σ → σ} {s t : σ} {u : PUnit} :
    (modify f : EStateM ε σ PUnit) s = .ok u t ↔ f s = t := by
  simp [modify, stateModifyGet_eq_ok]

theorem stateModify_ne_error {f : σ → σ} {s t : σ} {e : ε} :
    (modify f : EStateM ε σ PUnit) s ≠ .error e t := by
  simp [modify, stateModifyGet_ne_error]

/-- A step with a handler succeeds where the step does. -/
theorem stateTryCatch_of_ok {x : EStateM ε σ α} {f : ε → EStateM ε σ α} {s t : σ} {a : α}
    (h : x s = .ok a t) : (tryCatch x f) s = .ok a t := by
  have hrun : (tryCatch x f) s = EStateM.tryCatch x f s := rfl
  rw [hrun, EStateM.tryCatch, h]

/-- The handler of a fault starts from what the failed step has left. -/
theorem stateTryCatch_of_error {x : EStateM ε σ α} {f : ε → EStateM ε σ α} {s t : σ} {e : ε}
    (h : x s = .error e t) : (tryCatch x f) s = f e t := by
  have hrun : (tryCatch x f) s = EStateM.tryCatch x f s := rfl
  rw [hrun, EStateM.tryCatch, h]
  rfl

/-- A step whose fault is an answer, after which its caller goes on. -/
def answered (x : EStateM ε σ α) : EStateM ε σ (Except ε α) :=
  try
    pure (.ok (← x))
  catch e =>
    pure (.error e)

theorem answered_of_ok {x : EStateM ε σ α} {s t : σ} {a : α} (h : x s = .ok a t) :
    answered x s = .ok (.ok a) t :=
  stateTryCatch_of_ok (stateBind_eq_ok.mpr ⟨a, t, h, rfl⟩)

theorem answered_of_error {x : EStateM ε σ α} {s t : σ} {e : ε} (h : x s = .error e t) :
    answered x s = .ok (.error e) t :=
  stateTryCatch_of_error (stateBind_eq_error.mpr (.inl h))

end Dalvik
