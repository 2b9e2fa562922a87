/-
# Keys tell apart, and end by themselves

A key begins with what says where it ends, so two keys with anything after them are equal only if
the keys are, and the values.  Lengths are kept in eight bytes, which is why every length in a value
has to be less than `2 ^ 64`: no buffer is longer.

`Delimited` is the class of the types of which this is proved: numbers, strings, pairs, options and
lists, and references.  For values it says which lengths have to fit; those of a value whose key is
shorter than `2 ^ 64` bytes do, and `selfDelimiting` is the statement for such values.

`Delimits` is the same for values with any property, so that a list may be told apart whose items
have theirs and whose own key is as long as it will.
-/
import Dalvik.Key

namespace Dalvik

/-- The number of bytes that a buffer cannot have. -/
def Keyed.limit : Nat := 0x10000000000000000

/-- Two keys with anything after them are equal only if the values are equal and so is the rest. -/
def SelfDelimiting (α : Type) [Keyed α] : Prop :=
  ∀ ⦃a b : α⦄ ⦃x y : List UInt8⦄, (key a).length < Keyed.limit → (key b).length < Keyed.limit →
    key a ++ x = key b ++ y → a = b ∧ x = y

theorem SelfDelimiting.injective {α : Type} [Keyed α] (h : SelfDelimiting α) {a b : α}
    (ha : (key a).length < Keyed.limit) (hk : key a = key b) : a = b :=
  (h ha (hk ▸ ha) (congrArg (· ++ []) hk)).1

/-- Two keys of values with the property, with anything after them, are equal only if the values are
and so is the rest. -/
def Delimits {α : Type} [Keyed α] (P : α → Prop) : Prop :=
  ∀ ⦃a b : α⦄ ⦃x y : List UInt8⦄, P a → P b → key a ++ x = key b ++ y → a = b ∧ x = y

theorem SelfDelimiting.delimits {α : Type} [Keyed α] (h : SelfDelimiting α) :
    Delimits fun a : α => (key a).length < Keyed.limit :=
  fun _ _ _ _ ha hb => h ha hb

/-- A type whose keys end by themselves. -/
class Delimited (α : Type) [Keyed α] where
  /-- Every length in the value fits eight bytes. -/
  Counted : α → Prop
  key_pos : ∀ a : α, 0 < (key a).length
  counted_of_key : ∀ {a : α}, (key a).length < Keyed.limit → Counted a
  delimits : Delimits Counted

export Delimited (Counted counted_of_key)

theorem selfDelimiting (α : Type) [Keyed α] [Delimited α] : SelfDelimiting α :=
  fun _ _ _ _ ha hb h => Delimited.delimits (counted_of_key ha) (counted_of_key hb) h

/-! ## 1. Fields and counts -/

theorem LittleEndian.encode_append_inj {α : Type} [LittleEndian α] {a b : α} {x y : List UInt8}
    (h : encode a ++ x = encode b ++ y) : a = b ∧ x = y := by
  obtain ⟨he, hx⟩ := List.append_inj h (by rw [length_encode, length_encode])
  refine ⟨?_, hx⟩
  rw [← decode_encode a, he, decode_encode]

theorem length_count (n : Nat) : (Keyed.count n).length = 8 :=
  LittleEndian.length_encode _

theorem Keyed.count_append_inj {m n : Nat} {x y : List UInt8} (hm : m < limit) (hn : n < limit)
    (h : count m ++ x = count n ++ y) : m = n ∧ x = y := by
  obtain ⟨he, hx⟩ := LittleEndian.encode_append_inj h
  refine ⟨?_, hx⟩
  have hv := congrArg UInt64.toNat he
  rwa [Nat.toUInt64_eq, Nat.toUInt64_eq, UInt64.toNat_ofNat_of_lt' hm,
    UInt64.toNat_ofNat_of_lt' hn] at hv

/-! ## 2. Strings and lists -/

theorem length_bytes (s : String) : s.toUTF8.data.toList.length = s.utf8ByteSize := by
  rw [String.toUTF8_eq_toByteArray]
  rfl

theorem length_key_string (s : String) : (key s).length = 8 + s.utf8ByteSize := by
  simp only [key, List.length_append, length_count, length_bytes]

instance : Delimited String where
  Counted s := s.utf8ByteSize < Keyed.limit
  key_pos s := by
    rw [length_key_string]
    omega
  counted_of_key {s} hs := by
    rw [length_key_string] at hs
    omega
  delimits := by
    intro a b x y ha hb h
    simp only [key, List.append_assoc] at h
    obtain ⟨hn, h⟩ := Keyed.count_append_inj ha hb h
    obtain ⟨hd, hx⟩ := List.append_inj h (by rw [length_bytes, length_bytes, hn])
    exact ⟨String.toByteArray_inj.mp (ByteArray.ext (Array.toList_inj.mp hd)), hx⟩

namespace Delimits

variable {α : Type} [Keyed α] {P : α → Prop} (hP : Delimits P)

include hP

/-- Lists of one length. -/
theorem flatMap {as bs : List α} {x y : List UInt8} (hl : as.length = bs.length)
    (ha : ∀ a ∈ as, P a) (hb : ∀ b ∈ bs, P b) (h : as.flatMap key ++ x = bs.flatMap key ++ y) :
    as = bs ∧ x = y := by
  induction as generalizing bs with
  | nil =>
    obtain rfl := List.length_eq_zero_iff.mp hl.symm
    exact ⟨rfl, h⟩
  | cons a as ih =>
    cases bs with
    | nil => cases hl
    | cons b bs =>
      rw [List.forall_mem_cons] at ha hb
      rw [List.flatMap_cons, List.flatMap_cons, List.append_assoc, List.append_assoc] at h
      obtain ⟨rfl, hrest⟩ := hP ha.1 hb.1 h
      obtain ⟨rfl, hx⟩ := ih (Nat.succ.inj hl) ha.2 hb.2 hrest
      exact ⟨rfl, hx⟩

/-- Lists that are not too long, of values with the property. -/
theorem list : Delimits fun l : List α => l.length < Keyed.limit ∧ ∀ a ∈ l, P a := by
  rintro as bs x y ⟨hla, ha⟩ ⟨hlb, hb⟩ h
  simp only [key, List.append_assoc] at h
  obtain ⟨hl, hrest⟩ := Keyed.count_append_inj hla hlb h
  exact hP.flatMap hl ha hb hrest

/-- **Lists are told apart by their keys** alone, whatever their length: where the keys of the items
end, the lists do. -/
theorem list_of_key [Delimited α] {as bs : List α} (ha : ∀ a ∈ as, P a) (hb : ∀ b ∈ bs, P b)
    (h : key as = key bs) : as = bs := by
  have hitems : as.flatMap key = bs.flatMap key :=
    (List.append_inj h (by rw [length_count, length_count])).2
  clear h
  induction as generalizing bs with
  | nil =>
    cases bs with
    | nil => rfl
    | cons b bs =>
      have hlength := congrArg List.length hitems
      rw [List.flatMap_nil, List.flatMap_cons, List.length_append, List.length_nil] at hlength
      have := Delimited.key_pos b
      omega
  | cons a as ih =>
    cases bs with
    | nil =>
      have hlength := congrArg List.length hitems
      rw [List.flatMap_nil, List.flatMap_cons, List.length_append, List.length_nil] at hlength
      have := Delimited.key_pos a
      omega
    | cons b bs =>
      rw [List.forall_mem_cons] at ha hb
      rw [List.flatMap_cons, List.flatMap_cons] at hitems
      obtain ⟨rfl, hrest⟩ := hP ha.1 hb.1 hitems
      rw [ih ha.2 hb.2 hrest]

end Delimits

theorem length_key_list {α : Type} [Keyed α] (l : List α) :
    (key l).length = 8 + (l.flatMap key).length := by
  simp only [key, List.length_append, length_count]

theorem length_key_le_of_mem {α : Type} [Keyed α] {l : List α} {a : α} (ha : a ∈ l) :
    (key a).length ≤ (l.flatMap key).length := by
  obtain ⟨before, after, rfl⟩ := List.append_of_mem ha
  rw [List.flatMap_append, List.flatMap_cons, List.length_append, List.length_append]
  omega

theorem length_le_flatMap_key {α : Type} [Keyed α] (hpos : ∀ a : α, 0 < (key a).length)
    (l : List α) : l.length ≤ (l.flatMap key).length := by
  induction l with
  | nil => exact Nat.zero_le _
  | cons a l ih =>
    have ha := hpos a
    rw [List.flatMap_cons, List.length_append, List.length_cons]
    omega

instance {α : Type} [Keyed α] [Delimited α] : Delimited (List α) where
  Counted l := l.length < Keyed.limit ∧ ∀ a ∈ l, Counted a
  key_pos l := by
    rw [length_key_list]
    omega
  counted_of_key {l} hl := by
    have hlength := length_le_flatMap_key Delimited.key_pos l
    rw [length_key_list] at hl
    refine ⟨by omega, fun a ha => counted_of_key ?_⟩
    have hitem := length_key_le_of_mem ha
    omega
  delimits := Delimited.delimits.list

/-! ## 3. Numbers, pairs and options -/

/-- A pair is keyed by its two parts. -/
instance {α β : Type} [Keyed α] [Keyed β] : Keyed (α × β) where
  key x := key x.1 ++ key x.2

instance : Delimited UInt32 where
  Counted _ := True
  key_pos n := by
    have hlength : (key n).length = 4 := LittleEndian.length_encode n
    omega
  counted_of_key _ := trivial
  delimits _ _ _ _ _ _ h := LittleEndian.encode_append_inj h

instance {α β : Type} [Keyed α] [Keyed β] [Delimited α] [Delimited β] : Delimited (α × β) where
  Counted x := Counted x.1 ∧ Counted x.2
  key_pos x := by
    have hpos := Delimited.key_pos x.1
    simp only [key, List.length_append]
    omega
  counted_of_key {x} hx := by
    simp only [key, List.length_append] at hx
    exact ⟨counted_of_key (by omega), counted_of_key (by omega)⟩
  delimits := by
    rintro ⟨a, b⟩ ⟨a', b'⟩ x y ⟨ha, hb⟩ ⟨ha', hb'⟩ h
    simp only [key, List.append_assoc] at h
    obtain ⟨rfl, hrest⟩ := Delimited.delimits ha ha' h
    obtain ⟨rfl, hx⟩ := Delimited.delimits hb hb' hrest
    exact ⟨rfl, hx⟩

instance {α : Type} [Keyed α] [Delimited α] : Delimited (Option α) where
  Counted o := ∀ a ∈ o, Counted a
  key_pos o := by
    cases o <;> simp [key]
  counted_of_key {o} ho := by
    rintro a rfl
    simp only [key, List.length_cons] at ho
    exact counted_of_key (by omega)
  delimits := by
    intro a b x y ha hb h
    cases a with
    | none =>
      cases b with
      | none => exact ⟨rfl, (List.cons.inj h).2⟩
      | some => cases (List.cons.inj h).1
    | some a =>
      cases b with
      | none => cases (List.cons.inj h).1
      | some b =>
        obtain ⟨rfl, hx⟩ := Delimited.delimits (ha a rfl) (hb b rfl) (List.cons.inj h).2
        exact ⟨rfl, hx⟩

/-! ## 4. References -/

/-- A type whose values are keyed as those of another, which tell them apart. -/
@[reducible]
def Delimited.ofKey {α β : Type} [Keyed α] [Keyed β] [Delimited β] (f : α → β)
    (hkey : ∀ a, key a = key (f a)) (hf : ∀ a b, f a = f b → a = b) : Delimited α where
  Counted a := Counted (f a)
  key_pos a := by
    rw [hkey]
    exact Delimited.key_pos (f a)
  counted_of_key {a} ha := by
    rw [hkey] at ha
    exact counted_of_key ha
  delimits := by
    intro a b x y ha hb h
    rw [hkey, hkey] at h
    obtain ⟨hab, hx⟩ := Delimited.delimits ha hb h
    exact ⟨hf a b hab, hx⟩

/-- The key of a list of strings of which none is long. -/
theorem length_key_strings_le {l : List String} {bound : Nat}
    (h : ∀ s ∈ l, s.utf8ByteSize ≤ bound) : (key l).length ≤ 8 + l.length * (8 + bound) := by
  have hflat : (l.flatMap key).length ≤ l.length * (8 + bound) := by
    induction l with
    | nil => exact Nat.zero_le _
    | cons s rest ih =>
      have hs := h s (List.mem_cons_self ..)
      have hrest := ih fun x hx => h x (List.mem_cons_of_mem _ hx)
      rw [List.flatMap_cons, List.length_append, List.length_cons, Nat.succ_mul, length_key_string]
      omega
  simp only [key, List.length_append, length_count] at hflat ⊢
  omega

theorem key_proto (p : Proto) : key p = key (p.returnType, p.parameters) :=
  rfl

theorem key_field (f : FieldRef) : key f = key (f.owner, f.name, f.type) :=
  List.append_assoc ..

theorem key_method (m : MethodRef) : key m = key (m.owner, m.name, m.proto) :=
  List.append_assoc ..

instance : Delimited Proto :=
  .ofKey (fun p => (p.returnType, p.parameters)) key_proto fun p q h => by
    cases p
    cases q
    simpa using h

instance : Delimited FieldRef :=
  .ofKey (fun f => (f.owner, f.name, f.type)) key_field fun f g h => by
    cases f
    cases g
    simpa using h

instance : Delimited MethodRef :=
  .ofKey (fun m => (m.owner, m.name, m.proto)) key_method fun m n h => by
    cases m
    cases n
    simpa using h

end Dalvik
