/-
# Archives apart

Classes are put in groups one after the other, and the groups stand in strict order of their
archives all the time.  So the search for a group is a search among items in order: it finds the
one group of an archive, or the one place where it belongs.  Each archive that occurs then has one
group, with exactly the classes that are placed there, and what is written for it depends on these
alone.

* `Place.right_search`: what a search among items in order answers;
* `Placement.add_cases`: all that putting a class in its group can do;
* `Placement.Gathered` is kept by each class (`Gathered.add`), and so holds of all groups;
* `Container.pushArchive_eq` and `Container.foldlM_pushArchive`: what one group adds to the
  archives, and what the loop over the groups leaves;
* `Container.archives_apart`: the statement for the containers.
-/
import Dalvik.Container.Archive
import Dalvik.Proofs.Container.IdReading

namespace Dalvik

/-! ## 1. The search -/

namespace Place

variable {order : Nat → Ordering} {count : Nat}

/-- Before an item that is not too great, all are too small. -/
def Ascending (order : Nat → Ordering) (count : Nat) : Prop :=
  ∀ ⦃i j : Nat⦄, i < j → j < count → order j ≠ .gt → order i = .lt

/-- What a search among items in order has to answer. -/
inductive Right (order : Nat → Ordering) (count : Nat) : Place → Prop
  | found {place : Nat} (hlt : place < count) (ho : order place = .eq) :
      Right order count (.found place)
  | missing {place : Nat} (hle : place ≤ count) (hbefore : ∀ k < place, order k = .lt)
      (hafter : ∀ k, place ≤ k → k < count → order k = .gt) : Right order count (.missing place)

/-- **A search among items in order is right**, if what is outside of its bounds has been ruled
out. -/
theorem right_search (hasc : Ascending order count) {low high : Nat} (hle : low ≤ high)
    (hhigh : high ≤ count) (hbefore : ∀ k < low, order k = .lt)
    (hafter : ∀ k, high ≤ k → k < count → order k = .gt) :
    Right order count (search order low high) := by
  fun_induction search order low high with
  | case1 low high hlt middle ho =>
    exact .found (by omega) ho
  | case2 low high hlt middle ho ih =>
    refine ih (by omega) hhigh (fun k hk => ?_) hafter
    rcases Nat.lt_succ_iff_lt_or_eq.mp hk with hk | rfl
    · exact hasc hk (by omega) (by rw [ho]; decide)
    · exact ho
  | case3 low high hlt middle ho ih =>
    refine ih (by omega) (by omega) hbefore fun k hk hlast => ?_
    rcases Nat.lt_or_eq_of_le hk with hk | rfl
    · by_contra hne
      rw [hasc hk hlast hne] at ho
      cases ho
    · exact ho
  | case4 low high hge =>
    exact .missing (by omega) hbefore fun k hk => hafter k (by omega)

end Place

namespace Placement

variable {p : Placement} {groups : List Group} {d : ClassDef}

/-! ## 2. One class -/

/-- The groups are in strict order of their archives. -/
def InOrder (groups : List Group) : Prop :=
  groups.Pairwise fun g g' => g.archive < g'.archive

theorem order_of_getElem? {archive place : Nat} {g : Group} (h : groups[place]? = some g) :
    order groups.toArray archive place = compare g.archive archive := by
  rw [order, List.getElem?_toArray, h]
  rfl

theorem ascending_order (h : InOrder groups) (archive : Nat) :
    Place.Ascending (order groups.toArray archive) groups.length := by
  intro i j hij hj hne
  have hi : i < groups.length := Nat.lt_trans hij hj
  have hlt : groups[i].archive < groups[j].archive := List.pairwise_iff_getElem.mp h i j hi hj hij
  rw [order_of_getElem? (List.getElem?_eq_getElem hj), Nat.compare_ne_gt] at hne
  rw [order_of_getElem? (List.getElem?_eq_getElem hi), Nat.compare_eq_lt]
  exact Nat.lt_of_lt_of_le hlt hne

/-- **Putting a class in its group**: all groups before it are of lesser archives and all behind it
of greater ones, and it gets one more member or is a new one. -/
theorem add_cases (h : InOrder groups) :
    ∃ before members after,
      (groups = before ++ { archive := p d, members } :: after ∨
        members = [] ∧ groups = before ++ after) ∧
      (∀ g ∈ before, g.archive < p d) ∧ (∀ g ∈ after, p d < g.archive) ∧
      p.add groups.toArray d =
        (before ++ { archive := p d, members := members ++ [d] } :: after).toArray := by
  have hright := Place.right_search (ascending_order h (p d)) (Nat.zero_le _) (Nat.le_refl _)
    (fun k hk => absurd hk (Nat.not_lt_zero k)) fun k hk hlt => absurd hlt (Nat.not_lt.mpr hk)
  rw [add, List.size_toArray]
  generalize Place.search (order groups.toArray (p d)) 0 groups.length = place at hright
  cases hright with
  | @found place hlt ho =>
    have hgroups : groups = groups.take place ++ groups[place] :: groups.drop (place + 1) := by
      rw [List.getElem_cons_drop, List.take_append_drop]
    rw [order_of_getElem? (List.getElem?_eq_getElem hlt), Nat.compare_eq_eq] at ho
    have hord := h
    rw [hgroups, InOrder, List.pairwise_append, List.pairwise_cons] at hord
    obtain ⟨-, ⟨hafter, -⟩, hbefore⟩ := hord
    have hg : groups[place] = { archive := p d, members := groups[place].members } := by rw [← ho]
    refine ⟨_, _, _, .inl (hg ▸ hgroups), fun g hg => ?_, fun g hg => ho ▸ hafter g hg, ?_⟩
    · exact ho ▸ hbefore g hg _ (List.mem_cons_self ..)
    · simp only [List.modify_toArray, List.modify_eq_take_cons_drop hlt, ho]
  | @missing place hle hbefore hafter =>
    refine ⟨groups.take place, [], groups.drop place, .inr ⟨rfl, (List.take_append_drop ..).symm⟩,
      fun g hg => ?_, fun g hg => ?_, ?_⟩
    · obtain ⟨k, hk, rfl⟩ := List.mem_take_iff_getElem.mp hg
      have hlt : k < groups.length := by omega
      have ho := hbefore k (by omega)
      rwa [order_of_getElem? (List.getElem?_eq_getElem hlt), Nat.compare_eq_lt] at ho
    · obtain ⟨k, hk, rfl⟩ := List.mem_drop_iff_getElem.mp hg
      have ho := hafter (place + k) (Nat.le_add_right ..) (by omega)
      rwa [order_of_getElem? (List.getElem?_eq_getElem (by omega)), Nat.compare_eq_gt] at ho
    · have hins := insertIdx_length (groups.take place) (groups.drop place)
        { archive := p d, members := [d] }
      rw [List.length_take_of_le hle, List.take_append_drop] at hins
      simp only [List.insertIdxIfInBounds_toArray, hins, List.nil_append]

/-! ## 3. All classes -/

/-- The groups of the classes that have been seen: one for each archive that occurs, with all the
classes that are placed there. -/
structure Gathered (p : Placement) (seen : List ClassDef) (groups : List Group) : Prop where
  inOrder : InOrder groups
  members_eq : ∀ g ∈ groups, g.members = seen.filter fun d => p d == g.archive
  members_ne : ∀ g ∈ groups, g.members ≠ []
  exists_group : ∀ d ∈ seen, ∃ g ∈ groups, g.archive = p d

variable {seen : List ClassDef}

theorem gathered_nil : Gathered p [] [] where
  inOrder := .nil
  members_eq := by simp
  members_ne := by simp
  exists_group := by simp

section Split

variable {archive : Nat} {members : List ClassDef} {before after : List Group}

theorem mem_of_split
    (hgroups : groups = before ++ { archive, members } :: after ∨
      members = [] ∧ groups = before ++ after) {g : Group} (hg : g ∈ before ++ after) :
    g ∈ groups := by
  rcases hgroups with rfl | ⟨-, rfl⟩
  · exact List.perm_middle.mem_iff.mpr (List.mem_cons_of_mem _ hg)
  · exact hg

/-- What is placed in an archive is what its group has, or nothing if there is no such group. -/
theorem Gathered.members_of_split (h : Gathered p seen groups)
    (hgroups : groups = before ++ { archive, members } :: after ∨
      members = [] ∧ groups = before ++ after)
    (hne : ∀ g ∈ before ++ after, g.archive ≠ archive) :
    members = seen.filter fun d => p d == archive := by
  rcases hgroups with rfl | ⟨rfl, rfl⟩
  · exact h.members_eq { archive, members } (by simp)
  · refine (List.filter_eq_nil_iff.mpr fun d hd heq => ?_).symm
    obtain ⟨g, hg, hga⟩ := h.exists_group d hd
    exact hne g hg (hga.trans (beq_iff_eq.mp heq))

end Split

/-- **One more class is gathered.** -/
theorem Gathered.add (h : Gathered p seen groups) :
    Gathered p (seen ++ [d]) (p.add groups.toArray d).toList := by
  obtain ⟨before, members, after, hgroups, hbefore, hafter, hadd⟩ :=
    add_cases (p := p) (d := d) h.inOrder
  have hne : ∀ g ∈ before ++ after, g.archive ≠ p d := fun g hg =>
    (List.mem_append.mp hg).elim (fun hg => Nat.ne_of_lt (hbefore g hg))
      fun hg => Nat.ne_of_gt (hafter g hg)
  have hmembers := h.members_of_split hgroups hne
  rw [hadd]
  refine ⟨?_, fun g hg => ?_, fun g hg => ?_, fun d' hd' => ?_⟩
  · have hord : InOrder (before ++ after) := by
      rcases hgroups with rfl | ⟨-, rfl⟩
      · exact h.inOrder.sublist ((List.sublist_cons_self ..).append_left _)
      · exact h.inOrder
    rw [InOrder, List.pairwise_append] at hord ⊢
    refine ⟨hord.1, hord.2.1.cons hafter, fun g hg g' hg' => ?_⟩
    rcases List.mem_cons.mp hg' with rfl | hg'
    · exact hbefore g hg
    · exact hord.2.2 g hg g' hg'
  · rcases List.mem_cons.mp (List.perm_middle.mem_iff.mp hg) with rfl | hg
    · simp [hmembers]
    · rw [h.members_eq g (mem_of_split hgroups hg)]
      simp [(hne g hg).symm]
  · rcases List.mem_cons.mp (List.perm_middle.mem_iff.mp hg) with rfl | hg
    · simp
    · exact h.members_ne g (mem_of_split hgroups hg)
  · simp only [List.perm_middle.mem_iff, List.mem_cons, exists_eq_or_imp]
    rcases List.mem_append.mp hd' with hd' | hd'
    · obtain ⟨g, hg, hga⟩ := h.exists_group d' hd'
      rcases hgroups with rfl | ⟨-, rfl⟩
      · rcases List.mem_cons.mp (List.perm_middle.mem_iff.mp hg) with rfl | hg
        · exact .inl hga
        · exact .inr ⟨g, hg, hga⟩
      · exact .inr ⟨g, hg, hga⟩
    · exact .inl (by rw [List.mem_singleton.mp hd'])

/-- All classes are gathered, one after the other. -/
theorem Gathered.addAll {groups : Array Group} (h : Gathered p seen groups.toList)
    (classes : List ClassDef) :
    Gathered p (seen ++ classes) (classes.foldl p.add groups).toList := by
  induction classes generalizing seen groups with
  | nil => rwa [List.append_nil]
  | cons d classes ih => simpa using ih (h.add (d := d))

theorem gathered_groups (p : Placement) (classes : List ClassDef) :
    Gathered p classes (p.groups classes) :=
  gathered_nil.addAll classes

theorem archive_mem_groups_iff {classes : List ClassDef} {archive : Nat} :
    archive ∈ (p.groups classes).map Group.archive ↔ ∃ d ∈ classes, p d = archive := by
  have h := gathered_groups p classes
  rw [List.mem_map]
  constructor
  · rintro ⟨g, hg, rfl⟩
    obtain ⟨d, hd⟩ := List.exists_mem_of_ne_nil _ (h.members_ne g hg)
    rw [h.members_eq g hg, List.mem_filter, beq_iff_eq] at hd
    exact ⟨d, hd⟩
  · rintro ⟨d, hd, rfl⟩
    exact h.exists_group d hd

end Placement

/-! ## 4. The containers -/

namespace Container

section Loop

variable {sign : List UInt8 → Vector UInt8 20} {sum : List UInt8 → UInt32}
  {options : Container.Options}

/-- **One more archive** is the container of its group alone, behind those that are there. -/
theorem pushArchive_eq (archives : Array (List UInt8)) (g : Group) :
    pushArchive sign sum options archives g =
      (writeWith sign sum options g.members).map archives.push := by
  simp only [pushArchive, writeWith, map_eq_bind, bind_assoc]

/-- **The loop over the groups** puts the container of each alone behind those that are there, in
the order of the groups. -/
theorem foldlM_pushArchive (gs : List Group) (archives : Array (List UInt8)) :
    gs.foldlM (pushArchive sign sum options) archives =
      (gs.mapM fun g => writeWith sign sum options g.members).map (archives ++ ·.toArray) := by
  induction gs generalizing archives with
  | nil => rw [List.foldlM_nil, List.mapM_nil, map_eq_bind, pure_bind, Array.append_empty]
  | cons g gs ih =>
    rw [List.foldlM_cons, List.mapM_cons, pushArchive_eq]
    cases writeWith sign sum options g.members with
    | error cause => rfl
    | ok container =>
      show gs.foldlM (pushArchive sign sum options) (archives.push container) = _
      rw [ih]
      cases gs.mapM fun g => writeWith sign sum options g.members with
      | error cause => rfl
      | ok rest => exact congrArg Except.ok (by simp)

/-- What the loop has in the end are the containers of the groups, each as it is written alone. -/
theorem writeAllWith_eq (placement : Placement) (classes : List ClassDef) :
    writeAllWith sign sum options placement classes =
      (placement.groups classes).mapM fun g => writeWith sign sum options g.members := by
  rw [writeAllWith, foldlM_pushArchive]
  cases (placement.groups classes).mapM fun g => writeWith sign sum options g.members with
  | error cause => rfl
  | ok written => exact congrArg Except.ok (by simp)

end Loop

/-- **Archives are apart**, whatever the digests are.  There is one group for each archive that
occurs, in the order of the archives, with exactly the classes that are placed there, in the order
in which they are given.  The containers that are written are those of the groups, each as it is
written alone; and what cannot be written is as the first group that cannot be written says. -/
theorem archives_apart (sign : List UInt8 → Vector UInt8 20) (sum : List UInt8 → UInt32)
    (options : Container.Options) (p : Placement) (classes : List ClassDef) :
    ((p.groups classes).map Group.archive).Pairwise (· < ·) ∧
    (∀ archive, archive ∈ (p.groups classes).map Group.archive ↔ ∃ d ∈ classes, p d = archive) ∧
    (∀ g ∈ p.groups classes,
      g.members ≠ [] ∧ g.members = classes.filter fun d => p d == g.archive) ∧
    (∀ containers, writeAllWith sign sum options p classes = .ok containers ↔
      List.Forall₂ (fun g container => writeWith sign sum options g.members = .ok container)
        (p.groups classes) containers) ∧
    ∀ e, writeAllWith sign sum options p classes = .error e ↔
      ∃ before g after, p.groups classes = before ++ g :: after ∧
        (∀ g' ∈ before, ∃ container, writeWith sign sum options g'.members = .ok container) ∧
        writeWith sign sum options g.members = .error e := by
  have h := p.gathered_groups classes
  rw [writeAllWith_eq]
  refine ⟨List.pairwise_map.mpr h.inOrder, fun _ => Placement.archive_mem_groups_iff,
    fun g hg => ⟨h.members_ne g hg, h.members_eq g hg⟩, fun _ => mapM_eq_ok, fun _ => mapM_eq_error⟩

/-- Two classes in one archive and one between them in another, which one of the two extends. -/
theorem archives_apart_twoArchives :
    let plain : ClassDef := { descriptor := "LPlain;" }
    let other : ClassDef := { descriptor := "LOther;", superclass? := some "LMain;" }
    let byInterfaces : Placement := fun d => d.interfaces.length
    ∃ first second,
      writeAll {} byInterfaces [plain, listenerClass, other] = .ok [first, second] ∧
      write {} [plain, other] = .ok first ∧ write {} [listenerClass] = .ok second := by
  intro plain other byInterfaces
  obtain ⟨first, hfirst⟩ : ∃ first, write {} [plain, other] = .ok first := by
    refine exists_of_isOk (isOk_write ?_)
    simp only [Image.ofClasses, Catalog.discover, Catalog.freeze, Catalog.freezeNames,
      Catalog.freezeProtos, Catalog.freezeMembers, Pool.freezeBy, Pool.freezeWith,
      Catalog.writeSection, MapList.write, MapList.parts, MapList.entries, mergeSort_eq_sortUpTo]
    decide +kernel
  obtain ⟨second, hsecond⟩ := exists_of_isOk isOk_write_listenerClass
  obtain ⟨-, -, -, hwritten, -⟩ := archives_apart Sha1.digest Adler32.checksum {} byInterfaces
    [plain, listenerClass, other]
  have hgroups : byInterfaces.groups [plain, listenerClass, other] =
      [{ archive := 0, members := [plain, other] },
        { archive := 1, members := [listenerClass] }] := by
    cbv
  refine ⟨first, second, (hwritten _).mpr ?_, hfirst, hsecond⟩
  rw [hgroups]
  exact .cons hfirst (.cons hsecond .nil)

end Container

end Dalvik
