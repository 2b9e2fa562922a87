/-
# What has no entry is not written

A container with an unresolvable class is refused.  A bare reference in code is met when the code is
written.  A method handle in an initial value or an annotation is met when the item that holds it is
written, but items are shared by content, and the item that is written is one with the same key: so
the keys have to tell values apart, and they do.

What is asked of a class is said by `Presentable`; `resolvable_of_write` is the statement for
the bytes of a container.
-/
import Dalvik.Proofs.Container.Image
import Dalvik.Proofs.Value.Key

namespace Dalvik

/-- A class as it can be presented: the operands of its code have passed their check, and the keys
of what it shares fit a buffer. -/
structure ClassDef.Presentable (d : ClassDef) : Prop where
  operands : ∀ b, d.HasBody b → ∀ i ∈ b.instructions, i.checkOperand i.operand = .ok ()
  staticValues : (key d.staticValues).length < Keyed.limit
  annotations : ∀ a, d.HasAnnotation a → (key a).length < Keyed.limit

namespace Catalog

variable {options : Container.Options} {classes : List ClassDef} {c : Catalog}

/-! ## 1. Code -/

/-- Of code that has been written, every method has been written. -/
theorem ok_of_writeCodeOf {all : List (MethodRef × Method × Body)}
    {before o : ClassDef.CodeOffsets} {s t : Stream}
    (h : c.writeCodeOf options before all s = .ok o t) :
    ∀ x ∈ all, ∃ s offset t, x.2.1.writeCode c.indexer options x.2.2 s = .ok offset t := by
  induction all generalizing before s with
  | nil => exact fun _ hx => (List.not_mem_nil hx).elim
  | cons x rest ih =>
    obtain ⟨offset, u, hx, h⟩ := stateBind_eq_ok.mp h
    rintro y (_ | ⟨_, hy⟩)
    · exact ⟨s, offset, u, Stream.inside_eq_ok.mp hx⟩
    · exact ih h y hy

/-- Code that has been written holds no bare reference. -/
theorem not_bare_of_writeCode {o : ClassDef.CodeOffsets} {s t : Stream}
    (h : c.writeCode options s = .ok o t) {d : ClassDef} (hd : d ∈ c.classes)
    (hp : d.Presentable) {b : Body} (hb : d.HasBody b) {r : Reference} (hr : b.Refers r) :
    ¬ r.IsBare := by
  intro hbare
  obtain ⟨m, hm, hbody⟩ := hb
  obtain ⟨_, _, _, hw⟩ := ok_of_writeCodeOf h _
    (mem_methodsWithCode.mpr ⟨d, hd, m, hm, b, hbody, rfl⟩)
  have hf : ∀ i ∈ b.instructions, i.fits i.operand = true := fun i hi =>
    Instruction.checkOperand_fits (hp.operands b ⟨m, hm, hbody⟩ i hi)
  obtain ⟨n, hn⟩ := Method.ok_of_writeCode hf hw r hr
  rw [indexer_of_bare hbare] at hn
  cases hn

/-! ## 2. Shared items -/

/-- An item whose key tells it apart is itself among the items if it is found. -/
theorem mem_items_of_has {α : Type} [Keyed α] (hα : SelfDelimiting α) {t : SharedItems α} {a : α}
    (h : t.Has a) (hk : (key a).length < Keyed.limit) : a ∈ t.items := by
  obtain ⟨b, hb, he⟩ := h
  rwa [hα.injective hk he.symm]

theorem no_handle_of_writeArrays {c' : Catalog} {s t : Stream}
    (h : c.writeArrays s = .ok c' t) {values : List EncodedValue}
    (hm : values ∈ c.encodedArrays.items) {v : EncodedValue} (hv : v ∈ values) :
    ¬ v.HoldsHandle := by
  rintro ⟨i, hi⟩
  obtain ⟨_, _, hw, -⟩ := stateBind_eq_ok.mp h
  have hparts := (Stream.ok_of_items hw).2 _ (List.mem_map_of_mem hm)
  have he := EncodedValue.error_of_methodHandle hi (indexer_of_bare (c := c) (.methodHandle i))
  obtain ⟨_, hd⟩ := hparts _ (List.mem_cons_of_mem _ (EncodedValue.parts_subset_partsOfAll hv he))
  cases hd

theorem no_handle_of_writeAnnotations {c' : Catalog} {s t : Stream}
    (h : c.writeAnnotations s = .ok c' t) {a : Annotation} (ha : a ∈ c.annotations.items) :
    ¬ a.HoldsHandle := by
  rintro ⟨i, hi⟩
  obtain ⟨_, _, hw, -⟩ := stateBind_eq_ok.mp h
  have hparts := (Stream.ok_of_items hw).2 _ (List.mem_map_of_mem ha)
  have he := Annotation.error_of_methodHandle hi (indexer_of_bare (c := c) (.methodHandle i))
  obtain ⟨_, hd⟩ := hparts _ he
  cases hd

/-! ## 3. The data section -/

/-- **A data section** that has been written is that of classes that can be written. -/
theorem resolvable_of_writeSection (hc : c.Serves options classes) {tables : IdTables}
    {s t : Stream} {placed : Placed} (h : c.writeSection options tables s = .ok placed t)
    {d : ClassDef} (hd : d.Kept classes) (hp : d.Presentable) : ¬ d.Unresolvable := by
  obtain ⟨c₁, c₂, c₃, c₄, _, _, -, ⟨_, _, h₁, -⟩, ⟨_, _, h₂, -⟩, ⟨_, _, h₃, -⟩, ⟨_, _, h₄, -⟩,
    ⟨_, _, h₅, -⟩, -, ⟨_, _, hcode, -⟩, -⟩ := shows_writeSection.of_ok h
  have hc₁ := serves_writeTypeLists hc h₁
  have hc₂ := serves_writeArrays hc₁ h₂
  have hc₃ := serves_writeAnnotations hc₂ h₃
  have hc₄ := serves_writeSets hc₃ h₄
  have hc₅ := serves_writeSetLists hc₄ h₅
  intro hun
  cases hun with
  | body hb hr hbare =>
    exact not_bare_of_writeCode hcode ((hc₅.kept d).mpr hd) hp hb hr hbare
  | @initial v hv hm =>
    have hv := hv.mem_staticValues
    have hreached : Reached options classes (.encodedArray d.staticValues) :=
      .named hd (.owned (.staticValues (List.ne_nil_of_mem hv)))
    have hitem := mem_items_of_has (selfDelimiting _)
      (holds_encodedArray.mp (hc₁.holds _ hreached)) hp.staticValues
    exact no_handle_of_writeArrays h₂ hitem hv hm
  | @annotated a ha hm =>
    have hreached : Reached options classes (.annotationItem a) :=
      .named hd (.owned (.annotationItem ha))
    have hitem := mem_items_of_has (selfDelimiting _)
      (holds_annotationItem.mp (hc₂.holds _ hreached)) (hp.annotations a ha)
    exact no_handle_of_writeAnnotations h₃ hitem hm

end Catalog

/-- **A container** that has been written is that of classes that can be written. -/
theorem Container.resolvable_of_write {sign : List UInt8 → Vector UInt8 20}
    {sum : List UInt8 → UInt32} {options : Container.Options} {classes : List ClassDef}
    {bytes : List UInt8} (h : Container.writeWith sign sum options classes = .ok bytes)
    {d : ClassDef} (hd : d.Kept classes) (hp : d.Presentable) : ¬ d.Unresolvable := by
  obtain ⟨image, hi, -⟩ := bind_eq_ok.mp h
  obtain ⟨c, hc, hi⟩ := bind_eq_ok.mp hi
  obtain ⟨tables, -, hi⟩ := bind_eq_ok.mp hi
  split at hi
  case h_1 => exact (throw_ne_ok hi).elim
  case h_2 placed s hs =>
    exact Catalog.resolvable_of_writeSection (Catalog.serves_of_discover hc) hs hd hp

end Dalvik
