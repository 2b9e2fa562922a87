/-
# Keys of values end by themselves

The first byte of the key of a value tells its type, and the type tells how the rest is read: as
bytes of a fixed number, as the key of a reference, or as a count and the keys of as many values.

Values nest, and so `Counted` says of a value that the lengths of all values inside it fit.
-/
import Dalvik.Proofs.Key
import Dalvik.Proofs.Value.Inside
import Dalvik.Value.Key

namespace Dalvik

namespace EncodedValue

/-! ## 1. The type of a value -/

/-- A key begins with the code of the type. -/
theorem structuralKey_eq (v : EncodedValue) :
    ∃ rest, v.structuralKey = v.valueType.code.toUInt8 :: rest := by
  cases v <;> exact ⟨_, by rw [structuralKey, valueType]⟩

/-- Codes tell types apart, also as bytes: they have five bits. -/
theorem code_injective {t u : ValueType} (h : t.code.toUInt8 = u.code.toUInt8) : t = u := by
  have hc : t.code = u.code := by
    have hn := congrArg UInt8.toNat h
    have ht := t.code_lt
    have hu := u.code_lt
    rwa [Nat.toUInt8_eq, Nat.toUInt8_eq, UInt8.toNat_ofNat_of_lt' (Nat.lt_trans ht (by decide)),
      UInt8.toNat_ofNat_of_lt' (Nat.lt_trans hu (by decide))] at hn
  have h' := congrArg ValueType.ofCode? hc
  rwa [ValueType.ofCode?_code, ValueType.ofCode?_code, Option.some.injEq] at h'

/-- Keys that agree, whatever follows them, are those of values of one type. -/
theorem valueType_of_key {v w : EncodedValue} {x y : List UInt8}
    (h : v.structuralKey ++ x = w.structuralKey ++ y) : v.valueType = w.valueType := by
  obtain ⟨_, hv⟩ := structuralKey_eq v
  obtain ⟨_, hw⟩ := structuralKey_eq w
  rw [hv, hw] at h
  exact code_injective (List.cons.inj h).1

theorem structuralKey_pos (v : EncodedValue) : 0 < v.structuralKey.length := by
  obtain ⟨_, hv⟩ := structuralKey_eq v
  rw [hv]
  exact Nat.succ_pos _

/-- Values of a list are keyed one after the other, as the items of any list are. -/
theorem keyOfAll_eq (values : List EncodedValue) : keyOfAll values = values.flatMap key := by
  induction values with
  | nil => rfl
  | cons v rest ih =>
    rw [keyOfAll, ih, List.flatMap_cons]
    rfl

theorem keyOfElements_eq (elements : List (String × EncodedValue)) :
    keyOfElements elements = elements.flatMap key := by
  induction elements with
  | nil => rfl
  | cons e rest ih =>
    rw [keyOfElements, ih, List.flatMap_cons, ← List.append_assoc]
    rfl

/-! ## 2. Lengths -/

end EncodedValue

/-- The lengths of an annotation, apart from those of its values, fit eight bytes. -/
def EncodedAnnotation.CountedAlone (a : EncodedAnnotation) : Prop :=
  Counted a.type ∧ a.elements.length < Keyed.limit ∧ ∀ e ∈ a.elements, Counted e.1

/-- The lengths of a value, apart from those of the values inside it, fit eight bytes. -/
def EncodedValue.CountedAlone : EncodedValue → Prop
  | .methodType proto => Counted proto
  | .string value | .type value => Counted value
  | .field f | .enum f => Counted f
  | .method m => Counted m
  | .array values => values.length < Keyed.limit
  | .annotationValue a => a.CountedAlone
  | _ => True

/-- An annotation is keyed as the pair of its type and its elements. -/
theorem EncodedAnnotation.key_eq (a : EncodedAnnotation) : key a = key (a.type, a.elements) := by
  obtain ⟨type, elements⟩ := a
  show structuralKey _ = _
  rw [structuralKey, EncodedValue.keyOfElements_eq]
  rfl

/-- What has a key that fits has lengths that fit: every length is below that of the key. -/
theorem EncodedAnnotation.countedAlone_of_key {a : EncodedAnnotation}
    (h : (key a).length < Keyed.limit) : a.CountedAlone := by
  have hpos (e : String × EncodedValue) : 0 < (key e).length := by
    have := Delimited.key_pos e.1
    simp only [key, List.length_append] at this ⊢
    omega
  have hkey : (key a).length = (key a.type).length + (key a.elements).length := by
    rw [a.key_eq]
    exact List.length_append
  have hlength := length_le_flatMap_key hpos a.elements
  rw [length_key_list] at hkey
  refine ⟨counted_of_key (by omega), by omega, fun e he => counted_of_key ?_⟩
  have hitem : (key e.1 ++ key e.2).length ≤ _ := length_key_le_of_mem he
  rw [List.length_append] at hitem
  omega

namespace EncodedValue

/-- The key of an array or of an annotation is longer than those of the values inside it. -/
theorem Inside.length_key_le {v w : EncodedValue} (h : v.Inside w) :
    (key v).length ≤ (key w).length := by
  induction h with
  | self => exact Nat.le_refl _
  | @array w values hw _ ih =>
    have hitem := length_key_le_of_mem hw
    have hkey : (key (EncodedValue.array values)).length = 1 + (8 + (keyOfAll values).length) := by
      show (structuralKey _).length = _
      rw [structuralKey, List.length_cons, List.length_append, length_count]
      omega
    rw [hkey, keyOfAll_eq]
    omega
  | @element w name a hw _ ih =>
    have hitem : (key name ++ key w).length ≤ _ := length_key_le_of_mem hw
    have hkey : (key (EncodedValue.annotationValue a)).length = 1 + (key a).length := by
      show (structuralKey _).length = _
      rw [structuralKey, List.length_cons, Nat.add_comm]
      rfl
    rw [hkey, a.key_eq]
    show _ ≤ 1 + (key a.type ++ key a.elements).length
    rw [List.length_append, length_key_list]
    rw [List.length_append] at hitem
    omega

/-- A value whose key fits has lengths that fit. -/
theorem countedAlone_of_key {v : EncodedValue} (h : (key v).length < Keyed.limit) :
    v.CountedAlone := by
  have h : v.structuralKey.length < Keyed.limit := h
  cases v with
  | array values =>
    have hlength := length_le_flatMap_key structuralKey_pos values
    rw [structuralKey, List.length_cons, List.length_append, keyOfAll_eq] at h
    show values.length < Keyed.limit
    omega
  | annotationValue a =>
    rw [structuralKey, List.length_cons] at h
    exact EncodedAnnotation.countedAlone_of_key (Nat.lt_of_succ_lt h)
  | methodType _ | string _ | type _ | field _ | method _ | enum _ =>
    rw [structuralKey, List.length_cons] at h
    exact counted_of_key (Nat.lt_of_succ_lt h)
  | _ => trivial

/-! ## 3. Values -/

mutual

/-- **The key of a value ends by itself.**  The induction is on the first value; the second one has
the same type, and the two are read in step, up to where the rest begins. -/
theorem structuralKey_inj : ∀ (a b : EncodedValue) (x y : List UInt8),
    (∀ v ∈ a.subvalues, v.CountedAlone) → (∀ v ∈ b.subvalues, v.CountedAlone) →
      a.structuralKey ++ x = b.structuralKey ++ y → a = b ∧ x = y
  | .byte _, b, _, _, _, _, h | .short _, b, _, _, _, _, h | .char _, b, _, _, _, _, h
  | .int _, b, _, _, _, _, h | .long _, b, _, _, _, _, h | .float _, b, _, _, _, _, h
  | .double _, b, _, _, _, _, h | .methodHandle _, b, _, _, _, _, h => by
    have hv := valueType_of_key h
    cases b <;> cases hv
    simp only [structuralKey, List.cons_append, List.cons.injEq, true_and] at h
    obtain ⟨rfl, hx⟩ := LittleEndian.encode_append_inj h
    exact ⟨rfl, hx⟩
  | .methodType _, b, _, _, ha, hb, h | .string _, b, _, _, ha, hb, h
  | .type _, b, _, _, ha, hb, h | .field _, b, _, _, ha, hb, h | .enum _, b, _, _, ha, hb, h
  | .method _, b, _, _, ha, hb, h => by
    have hv := valueType_of_key h
    have ha := ha _ (mem_subvalues_self _)
    have hb := hb _ (mem_subvalues_self _)
    cases b <;> cases hv
    simp only [structuralKey, List.cons_append, List.cons.injEq, true_and] at h
    obtain ⟨rfl, hx⟩ := Delimited.delimits ha hb h
    exact ⟨rfl, hx⟩
  | .array values, b, _, _, ha, hb, h => by
    have hv := valueType_of_key h
    cases b <;> cases hv
    case array values' =>
      simp only [subvalues, List.forall_mem_cons] at ha hb
      simp only [structuralKey, List.cons_append, List.append_assoc, List.cons.injEq, true_and]
        at h
      obtain ⟨hl, h⟩ := Keyed.count_append_inj ha.1 hb.1 h
      obtain ⟨rfl, hx⟩ := keyOfAll_inj values values' _ _ hl ha.2 hb.2 h
      exact ⟨rfl, hx⟩
  | .annotationValue a, b, _, _, ha, hb, h => by
    have hv := valueType_of_key h
    cases b <;> cases hv
    case annotationValue a' =>
      simp only [subvalues, List.forall_mem_cons] at ha hb
      simp only [structuralKey, List.cons_append, List.cons.injEq, true_and] at h
      obtain ⟨rfl, hx⟩ := annotationKey_inj a a' _ _ ha.1 ha.2 hb.1 hb.2 h
      exact ⟨rfl, hx⟩
  | .null, b, _, _, _, _, h => by
    have hv := valueType_of_key h
    cases b <;> cases hv
    simp only [structuralKey, List.cons_append, List.cons.injEq, true_and] at h
    exact ⟨rfl, h⟩
  | .boolean u, b, _, _, _, hb, h => by
    have hv := valueType_of_key h
    cases b <;> cases hv
    case boolean v =>
      simp only [structuralKey, List.cons_append, List.cons.injEq, true_and] at h
      refine ⟨?_, h.2⟩
      cases u <;> cases v <;> first | rfl | exact absurd h.1 (by decide)
termination_by structural a => a

/-- The type and the number of elements come first, so both are known when the elements are read. -/
theorem annotationKey_inj : ∀ (a b : EncodedAnnotation) (x y : List UInt8),
    a.CountedAlone → (∀ v ∈ a.subvalues, v.CountedAlone) →
      b.CountedAlone → (∀ v ∈ b.subvalues, v.CountedAlone) →
        a.structuralKey ++ x = b.structuralKey ++ y → a = b ∧ x = y
  | ⟨d, elements⟩, ⟨d', elements'⟩, _, _, ⟨hd, hl, hn⟩, ha, ⟨hd', hl', hn'⟩, hb, h => by
    simp only [List.append_assoc, EncodedAnnotation.structuralKey] at h
    obtain ⟨rfl, hc⟩ := Delimited.delimits hd hd' h
    obtain ⟨hlength, he⟩ := Keyed.count_append_inj hl hl' hc
    obtain ⟨rfl, hx⟩ := keyOfElements_inj elements elements' _ _ hlength hn ha hn' hb he
    exact ⟨rfl, hx⟩
termination_by structural a => a

/-- The keys of as many values end by themselves; the count has been read before. -/
theorem keyOfAll_inj : ∀ (as bs : List EncodedValue) (x y : List UInt8), as.length = bs.length →
    (∀ v ∈ subvaluesOfAll as, v.CountedAlone) → (∀ v ∈ subvaluesOfAll bs, v.CountedAlone) →
      keyOfAll as ++ x = keyOfAll bs ++ y → as = bs ∧ x = y
  | [], bs, _, _, hl, _, _, h => by
    obtain rfl := List.length_eq_zero_iff.mp hl.symm
    exact ⟨rfl, h⟩
  | a :: as, [], _, _, hl, _, _, _ => by cases hl
  | a :: as, b :: bs, _, _, hl, ha, hb, h => by
    simp only [subvaluesOfAll, List.forall_mem_append] at ha hb
    simp only [keyOfAll, List.append_assoc] at h
    obtain ⟨rfl, hr⟩ := structuralKey_inj a b _ _ ha.1 hb.1 h
    obtain ⟨rfl, hx⟩ := keyOfAll_inj as bs _ _ (Nat.succ.inj hl) ha.2 hb.2 hr
    exact ⟨rfl, hx⟩
termination_by structural as => as

/-- Names and values take turns, each ending by itself. -/
theorem keyOfElements_inj : ∀ (as bs : List (String × EncodedValue)) (x y : List UInt8),
    as.length = bs.length →
      (∀ e ∈ as, Counted e.1) → (∀ v ∈ subvaluesOfElements as, v.CountedAlone) →
        (∀ e ∈ bs, Counted e.1) → (∀ v ∈ subvaluesOfElements bs, v.CountedAlone) →
          keyOfElements as ++ x = keyOfElements bs ++ y → as = bs ∧ x = y
  | [], bs, _, _, hl, _, _, _, _, h => by
    obtain rfl := List.length_eq_zero_iff.mp hl.symm
    exact ⟨rfl, h⟩
  | a :: as, [], _, _, hl, _, _, _, _, _ => by cases hl
  | (n, v) :: as, (n', v') :: bs, _, _, hl, hn, ha, hn', hb, h => by
    simp only [subvaluesOfElements, List.forall_mem_append] at ha hb
    rw [List.forall_mem_cons] at hn hn'
    simp only [keyOfElements, List.append_assoc] at h
    obtain ⟨rfl, hv⟩ := Delimited.delimits hn.1 hn'.1 h
    obtain ⟨rfl, hr⟩ := structuralKey_inj v v' _ _ ha.1 hb.1 hv
    obtain ⟨rfl, hx⟩ := keyOfElements_inj as bs _ _ (Nat.succ.inj hl) hn.2 ha.2 hn'.2 hb.2 hr
    exact ⟨rfl, hx⟩
termination_by structural as => as

end

end EncodedValue

/-! ## 4. What is shared by content -/

instance : Delimited EncodedValue where
  Counted v := ∀ w ∈ v.subvalues, w.CountedAlone
  key_pos := EncodedValue.structuralKey_pos
  counted_of_key {v} hv w hw := by
    have hle := (EncodedValue.mem_subvalues.mp hw).length_key_le
    exact EncodedValue.countedAlone_of_key (Nat.lt_of_le_of_lt hle hv)
  delimits a b x y := EncodedValue.structuralKey_inj a b x y

instance : Delimited EncodedAnnotation :=
  .ofKey (fun a => (a.type, a.elements)) EncodedAnnotation.key_eq fun a b h => by
    cases a
    cases b
    simpa using h

instance : Delimited Annotation where
  Counted a := Counted a.content
  key_pos _ := Nat.succ_pos _
  counted_of_key ha := counted_of_key (Nat.lt_of_succ_lt ha)
  delimits := by
    rintro ⟨v, a⟩ ⟨v', a'⟩ x y ha hb h
    obtain ⟨hc, h⟩ := List.cons.inj h
    have hv : v = v' := by cases v <;> cases v' <;> first | rfl | cases hc
    obtain ⟨rfl, hx⟩ := Delimited.delimits ha hb h
    exact ⟨by rw [hv], hx⟩

end Dalvik
