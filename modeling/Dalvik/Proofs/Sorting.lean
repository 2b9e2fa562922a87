/-
# Sorting

What is in order after sorting by a comparison, that items which agree stay in their order, and what
is left when repeats are dropped then: each item once.

The library sorts by well-founded recursion, which no evaluation of a closed term gets through.  The
last section has the same algorithm with the number of levels as an argument, and the proof that
enough levels make it the library's.  It is used to evaluate whole containers of small classes.
-/
import Mathlib.Data.List.Nodup
import Mathlib.Data.List.Perm.Basic

namespace Dalvik

/-! ## 1. Order -/

theorem isLE_total {κ : Type} {cmp : κ → κ → Ordering} [Std.OrientedCmp cmp] (a b : κ) :
    ((cmp a b).isLE || (cmp b a).isLE) = true := by
  have hswap : cmp b a = (cmp a b).swap := Std.OrientedCmp.eq_swap
  rw [hswap]
  cases cmp a b <;> rfl

/-- Items in the order of something they have. -/
theorem transCmp_on {α κ : Type} (cmp : κ → κ → Ordering) [Std.TransCmp cmp] (f : α → κ) :
    Std.TransCmp fun a b => cmp (f a) (f b) where
  eq_swap := Std.OrientedCmp.eq_swap
  isLE_trans := Std.TransCmp.isLE_trans

theorem pairwise_mergeSort_isLE {α κ : Type} {cmp : κ → κ → Ordering} [Std.TransCmp cmp]
    {f : α → κ} (l : List α) :
    (l.mergeSort fun a b => (cmp (f a) (f b)).isLE).Pairwise
      fun a b => (cmp (f a) (f b)).isLE = true :=
  List.pairwise_mergeSort (fun _ _ _ => Std.TransCmp.isLE_trans)
    (fun a b => isLE_total (f a) (f b)) l

/-- Items with different keys that do not decrease are strictly increasing, if only equal keys
compare as equal. -/
theorem pairwise_lt_of_isLE {α κ : Type} {cmp : κ → κ → Ordering} [Std.LawfulEqCmp cmp] {f : α → κ}
    {l : List α} (hle : l.Pairwise fun a b => (cmp (f a) (f b)).isLE = true)
    (h : (l.map f).Nodup) : l.Pairwise fun a b => cmp (f a) (f b) = .lt := by
  refine (hle.and (List.pairwise_map.mp h)).imp ?_
  rintro a b ⟨hab, hn⟩
  cases hc : cmp (f a) (f b) with
  | lt => rfl
  | eq => exact (hn (Std.LawfulEqCmp.eq_of_compare hc)).elim
  | gt =>
    rw [hc] at hab
    cases hab

/-- Items with different keys, sorted by an order of the keys in which only equal ones are equal. -/
theorem pairwise_mergeSort_lt {α κ : Type} {cmp : κ → κ → Ordering} [Std.TransCmp cmp]
    [Std.LawfulEqCmp cmp] {f : α → κ} {l : List α} (h : (l.map f).Nodup) :
    (l.mergeSort fun a b => (cmp (f a) (f b)).isLE).Pairwise fun a b => cmp (f a) (f b) = .lt :=
  pairwise_lt_of_isLE (pairwise_mergeSort_isLE l)
    (((List.mergeSort_perm ..).map f).nodup_iff.mpr h)

/-- Items have one strict order: two lists in that order with the same items are the same. -/
theorem eq_of_pairwise_lt {α κ : Type} {cmp : κ → κ → Ordering} [Std.OrientedCmp cmp] {f : α → κ}
    {l m : List α} (hl : l.Pairwise fun a b => cmp (f a) (f b) = .lt)
    (hm : m.Pairwise fun a b => cmp (f a) (f b) = .lt) (hp : l.Perm m) : l = m := by
  refine hp.eq_of_pairwise (fun a b _ _ hab hba => ?_) hl hm
  rw [Std.OrientedCmp.gt_of_lt hab] at hba
  cases hba

/-- **Sorting is stable**: items none of which comes before another stay in their order. -/
theorem filter_mergeSort {α : Type} {le : α → α → Bool} {p : α → Bool} {l : List α}
    (trans : ∀ a b c, le a b = true → le b c = true → le a c = true)
    (total : ∀ a b, (le a b || le b a) = true)
    (hp : ∀ a b, p a = true → p b = true → le a b = true) :
    (l.mergeSort le).filter p = l.filter p := by
  have hsorted : (l.filter p).Pairwise fun a b => le a b = true := by
    refine List.pairwise_of_forall_mem_list fun a ha b hb => ?_
    exact hp a b (List.mem_filter.mp ha).2 (List.mem_filter.mp hb).2
  have hsub : (l.filter p).Sublist (l.mergeSort le) :=
    List.sublist_mergeSort trans total hsorted List.filter_sublist
  have hfiltered := hsub.filter p
  rw [List.filter_filter] at hfiltered
  simp only [Bool.and_self] at hfiltered
  exact (hfiltered.eq_of_length ((List.mergeSort_perm l le).filter p).length_eq.symm).symm

/-- A list put in the order of something the items have, those that agree in it staying in their
order. -/
structure StablySorted {α κ : Type} [LE κ] [DecidableEq κ] (f : α → κ) (l sorted : List α) :
    Prop where
  perm : sorted.Perm l
  ascending : sorted.Pairwise fun a b => f a ≤ f b
  stable : ∀ k, sorted.filter (f · = k) = l.filter (f · = k)

theorem stablySorted_mergeSort {α κ : Type} [LE κ] [DecidableLE κ] [Std.IsLinearPreorder κ]
    [DecidableEq κ] (f : α → κ) (l : List α) :
    StablySorted f l (l.mergeSort fun a b => f a ≤ f b) := by
  have htrans (a b c : α) (hab : decide (f a ≤ f b) = true) (hbc : decide (f b ≤ f c) = true) :
      decide (f a ≤ f c) = true :=
    decide_eq_true (Std.le_trans (of_decide_eq_true hab) (of_decide_eq_true hbc))
  have htotal (a b : α) : (decide (f a ≤ f b) || decide (f b ≤ f a)) = true := by
    rw [Bool.or_eq_true, decide_eq_true_iff, decide_eq_true_iff]
    exact Std.le_total
  refine ⟨List.mergeSort_perm .., ?_, fun k => filter_mergeSort htrans htotal fun a b ha hb => ?_⟩
  · exact (List.pairwise_mergeSort htrans htotal l).imp of_decide_eq_true
  · rw [of_decide_eq_true ha, of_decide_eq_true hb]
    exact decide_eq_true (Std.le_refl k)

/-- An item put in between others. -/
theorem insertIdx_length {α : Type} (before after : List α) (a : α) :
    (before ++ after).insertIdx before.length a = before ++ a :: after := by
  induction before with
  | nil => rfl
  | cons b before ih =>
    rw [List.cons_append, List.length_cons, List.insertIdx_succ_cons, ih, List.cons_append]

/-! ## 2. Without repeats -/

section Repeats

variable {α : Type} [BEq α] [LawfulBEq α]

omit [LawfulBEq α] in
theorem eraseReps_loop (a : α) (l acc : List α) :
    List.eraseRepsBy.loop (· == ·) a l acc = acc.reverse ++ (a :: l).eraseReps := by
  have hloop : ∀ (a : α) (l acc : List α), List.eraseRepsBy.loop (· == ·) a l acc =
      acc.reverse ++ List.eraseRepsBy.loop (· == ·) a l [] := by
    intro a l
    induction l generalizing a with
    | nil => intro acc; simp [List.eraseRepsBy.loop]
    | cons b rest ih =>
      intro acc
      rw [List.eraseRepsBy.loop, List.eraseRepsBy.loop]
      split
      · exact ih a acc
      · rw [ih b (a :: acc), ih b [a]]
        simp
  exact hloop a l acc

theorem eraseReps_cons_cons (a b : α) (l : List α) : (a :: b :: l).eraseReps =
    if a == b then (b :: l).eraseReps else a :: (b :: l).eraseReps := by
  have hunfold : (a :: b :: l).eraseReps = List.eraseRepsBy.loop (· == ·) a (b :: l) [] := rfl
  rw [hunfold, List.eraseRepsBy.loop]
  cases h : a == b with
  | true =>
    obtain rfl := eq_of_beq h
    exact eraseReps_loop a l []
  | false => exact eraseReps_loop b l [a]

theorem mem_eraseReps {x : α} {l : List α} : x ∈ l.eraseReps ↔ x ∈ l := by
  induction l with
  | nil => exact .rfl
  | cons a rest ih =>
    cases rest with
    | nil => exact .rfl
    | cons b rest =>
      rw [eraseReps_cons_cons]
      split
      case isTrue h =>
        rw [ih, eq_of_beq h]
        simp
      case isFalse => rw [List.mem_cons, ih, ← List.mem_cons]

/-- **A sorted list** has each item once when repeats are dropped. -/
theorem nodup_eraseReps {cmp : α → α → Ordering} [Std.TransCmp cmp] [Std.LawfulEqCmp cmp]
    {l : List α} (h : l.Pairwise fun a b => (cmp a b).isLE = true) : l.eraseReps.Nodup := by
  induction l with
  | nil => exact List.nodup_nil
  | cons a rest ih =>
    obtain ⟨hfirst, hrest⟩ := List.pairwise_cons.mp h
    cases rest with
    | nil => exact List.nodup_singleton a
    | cons b rest =>
      rw [eraseReps_cons_cons]
      split
      case isTrue => exact ih hrest
      case isFalse hne =>
        refine List.nodup_cons.mpr ⟨fun hm => ?_, ih hrest⟩
        -- an item equal to the first would come after the second, which is greater
        have hbounds : (cmp b a).isLE = true := by
          rcases List.mem_cons.mp (mem_eraseReps.mp hm) with rfl | hm
          · exact (hne (beq_self_eq_true _)).elim
          · exact (List.pairwise_cons.mp hrest).1 a hm
        have hab := hfirst b (List.mem_cons_self ..)
        have hswap : cmp b a = (cmp a b).swap := Std.OrientedCmp.eq_swap
        cases hc : cmp a b with
        | lt =>
          rw [hswap, hc] at hbounds
          cases hbounds
        | eq => exact hne (beq_iff_eq.mpr (Std.LawfulEqCmp.eq_of_compare hc))
        | gt =>
          rw [hc] at hab
          cases hab

end Repeats

/-! ## 3. Evaluation -/

variable {α : Type} (le : α → α → Bool)

/-- Merges two lists, in as many steps as they have items. -/
def mergeUpTo : (steps : Nat) → List α → List α → List α
  | 0, _, _ => []
  | _ + 1, [], ys => ys
  | _ + 1, xs, [] => xs
  | steps + 1, x :: xs, y :: ys =>
    if le x y then x :: mergeUpTo steps xs (y :: ys) else y :: mergeUpTo steps (x :: xs) ys

/-- Sorts a list, in as many levels as it has items. -/
def sortUpTo : (levels : Nat) → List α → List α
  | levels + 1, a :: b :: rest =>
    let half := (rest.length + 3) / 2
    mergeUpTo le (rest.length + 2) (sortUpTo levels ((a :: b :: rest).take half))
      (sortUpTo levels ((a :: b :: rest).drop half))
  | _, l => l

theorem merge_eq_mergeUpTo {steps : Nat} {xs ys : List α} (h : xs.length + ys.length ≤ steps) :
    xs.merge ys le = mergeUpTo le steps xs ys := by
  induction steps generalizing xs ys with
  | zero =>
    obtain rfl := List.length_eq_zero_iff.mp (show xs.length = 0 by omega)
    obtain rfl := List.length_eq_zero_iff.mp (show ys.length = 0 by omega)
    rw [mergeUpTo, List.nil_merge]
  | succ steps ih =>
    cases xs with
    | nil => rw [mergeUpTo, List.nil_merge]
    | cons x xs =>
      cases ys with
      | nil =>
        rw [mergeUpTo, List.merge_right]
        exact List.cons_ne_nil x xs
      | cons y ys =>
        simp only [List.length_cons] at h
        rw [mergeUpTo, List.cons_merge_cons]
        split
        · rw [ih (by rw [List.length_cons]; omega)]
        · rw [ih (by rw [List.length_cons]; omega)]

theorem mergeSort_eq_of_length_le {levels : Nat} {l : List α} (h : l.length ≤ levels) :
    l.mergeSort le = sortUpTo le levels l := by
  induction levels generalizing l with
  | zero =>
    obtain rfl := List.length_eq_zero_iff.mp (Nat.le_zero.mp h)
    rw [sortUpTo, List.mergeSort_nil]
    simp
  | succ levels ih =>
    match l, h with
    | [], _ => rw [sortUpTo, List.mergeSort_nil]; simp
    | [a], _ => rw [sortUpTo, List.mergeSort_singleton]; simp
    | a :: b :: rest, h =>
      simp only [List.length_cons] at h
      have hfront := ih (l := (a :: b :: rest).take ((rest.length + 3) / 2)) (by
        simp only [List.length_take, List.length_cons]
        omega)
      have hback := ih (l := (a :: b :: rest).drop ((rest.length + 3) / 2)) (by
        simp only [List.length_drop, List.length_cons]
        omega)
      have hmerge : (a :: b :: rest).mergeSort le =
          (((a :: b :: rest).take ((rest.length + 3) / 2)).mergeSort le).merge
            (((a :: b :: rest).drop ((rest.length + 3) / 2)).mergeSort le) le := by
        rw [List.mergeSort]
        simp [List.MergeSort.Internal.splitInTwo_fst, List.MergeSort.Internal.splitInTwo_snd]
      have hsteps : (((a :: b :: rest).take ((rest.length + 3) / 2)).mergeSort le).length +
          (((a :: b :: rest).drop ((rest.length + 3) / 2)).mergeSort le).length ≤
            rest.length + 2 := by
        simp only [List.length_mergeSort, List.length_take, List.length_drop, List.length_cons]
        omega
      rw [hmerge, sortUpTo, merge_eq_mergeUpTo le hsteps, hfront, hback]

/-- **Sorting**, in a form that can be evaluated. -/
theorem mergeSort_eq_sortUpTo (l : List α) : l.mergeSort le = sortUpTo le l.length l :=
  mergeSort_eq_of_length_le le (Nat.le_refl _)

end Dalvik
