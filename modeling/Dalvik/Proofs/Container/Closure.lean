/-
# Discovery is exactly closed

What discovery finds is what the writer looks up.  Discovery succeeds exactly if no class that is
kept repeats a member, and then the pools have what is reached, each thing once.  The writer meets a
reference without an entry only where a class is unresolvable, and such a class is never written.

`discovery_closed` states both, as long as what is reached fits the tables.
-/
import Dalvik.Proofs.Container.Refusal

namespace Dalvik

namespace Catalog

variable {options : Container.Options} {classes : List ClassDef} {c : Catalog}

/-! ## 1. The pools -/

/-- The five pools have what is in a stock, and each thing once. -/
structure PoolsAre (stock : Entity → Prop) (c : Catalog) : Prop where
  strings : ∀ s, s ∈ c.strings.items ↔ stock (.string s)
  types : ∀ d, d ∈ c.types.items ↔ stock (.type d)
  protos : ∀ p, p ∈ c.protos.items ↔ stock (.proto p)
  fields : ∀ f, f ∈ c.fields.items ↔ stock (.field f)
  methods : ∀ m, m ∈ c.methods.items ↔ stock (.method m)
  nodup_strings : c.strings.items.Nodup
  nodup_types : c.types.items.Nodup
  nodup_protos : c.protos.items.Nodup
  nodup_fields : c.fields.items.Nodup
  nodup_methods : c.methods.items.Nodup

theorem poolsAre_of_discover (h : discover options classes = .ok c) :
    c.PoolsAre (Reached options classes) := by
  have hn := nodup_of_discover h
  exact {
    strings := fun _ => stored_string.symm.trans (discover_stored h trivial)
    types := fun _ => stored_type.symm.trans (discover_stored h trivial)
    protos := fun _ => stored_proto.symm.trans (discover_stored h trivial)
    fields := fun _ => stored_field.symm.trans (discover_stored h trivial)
    methods := fun _ => stored_method.symm.trans (discover_stored h trivial)
    nodup_strings := .of_map _ (hn (.string default))
    nodup_types := .of_map _ (hn (.type default))
    nodup_protos := .of_map _ (hn (.proto default))
    nodup_fields := .of_map _ (hn (.field default))
    nodup_methods := .of_map _ (hn (.method default)) }

/-- As many insertions as a table has places fit. -/
theorem fits_of_length (h : (listing options classes).length ≤ 0x100000000) :
    Fits (Reached options classes) := by
  intro _ peers hn hs
  refine Nat.le_trans (hn.subperm fun x hx => ?_).length_le h
  exact mem_listing.mpr (hs x hx).2

end Catalog

/-! ## 2. Closure -/

namespace Container

/-- **Discovery is exactly closed.**  It succeeds exactly if no class that is kept repeats a member;
its pools have exactly what is reached; and the writer, whatever the digests are, meets a reference
without an entry only if a class that is kept is unresolvable, and then writes nothing. -/
theorem discovery_closed (sign : List UInt8 → Vector UInt8 20) (sum : List UInt8 → UInt32)
    (options : Options) (classes : List ClassDef) (hfit : Catalog.Fits (Reached options classes)) :
    ((∃ c, Catalog.discover options classes = .ok c) ↔
        ∀ d : ClassDef, d.Kept classes → d.MembersDiffer) ∧
      (∀ c, Catalog.discover options classes = .ok c → c.PoolsAre (Reached options classes)) ∧
      (∀ what, writeWith sign sum options classes = .error (.danglingReference what) →
        ∃ d : ClassDef, d.Kept classes ∧ d.Unresolvable) ∧
      ∀ d : ClassDef, d.Kept classes → d.Presentable → d.Unresolvable →
        ∀ bytes, writeWith sign sum options classes ≠ .ok bytes := by
  refine ⟨Catalog.discover_isOk hfit, fun _ => Catalog.poolsAre_of_discover, ?_, ?_⟩
  · intro what hw
    by_contra hn
    exact resolves_writeWith (fun d hd hu => hn ⟨d, hd, hu⟩) what hw
  · exact fun d hd hp hu bytes hw => resolvable_of_write hw hd hp hu

/-- A class with code, and with a method handle inside the value of a field. -/
def handleClass : ClassDef where
  descriptor := "LMain;"
  superclass? := some "Ljava/lang/Object;"
  annotations := [{ visibility := .runtime, content := { type := "LKeep;", elements := [] } }]
  fields := [{ name := "handles", type := "[Ljava/lang/invoke/MethodHandle;", flags := ⟨8⟩,
               value? := some (.array [.methodHandle 0]) }]
  methods := [{ name := "run", proto := { returnType := "V", parameters := ["I"] }, flags := ⟨8⟩,
                registers := 1, body? := some { slots := #[{ instruction? := some .nop }],
                                                order := #[0] } }]

theorem handleClass_presentable : handleClass.Presentable where
  operands := by
    rintro b ⟨m, hm, hb⟩ i hi
    obtain rfl := List.mem_singleton.mp hm
    cases hb
    obtain rfl := List.mem_singleton.mp hi
    rfl
  staticValues := by decide +kernel
  annotations := by
    rintro a ⟨set, hs, ha⟩
    rcases hs with rfl | ⟨f, hf, rfl⟩ | ⟨m, hm, rfl | hs⟩
    · obtain rfl := List.mem_singleton.mp ha
      decide +kernel
    · obtain rfl := List.mem_singleton.mp hf
      exact (List.not_mem_nil ha).elim
    · obtain rfl := List.mem_singleton.mp hm
      exact (List.not_mem_nil ha).elim
    · obtain rfl := List.mem_singleton.mp hm
      exact (List.not_mem_nil hs).elim

theorem handleClass_unresolvable : handleClass.Unresolvable :=
  .initial ⟨_, List.mem_cons_self .., rfl, rfl⟩ ⟨0, .array (List.mem_cons_self ..) .self⟩

/-- All is found that is reached from the class, and still it is not written. -/
theorem discovery_closed_handleClass :
    Catalog.Fits (Reached {} [handleClass]) ∧ handleClass.Presentable ∧
      handleClass.Unresolvable ∧ (∃ c, Catalog.discover {} [handleClass] = .ok c) ∧
        ∀ bytes, write {} [handleClass] ≠ .ok bytes := by
  have hfit : Catalog.Fits (Reached {} [handleClass]) :=
    Catalog.fits_of_length (by decide +kernel)
  obtain ⟨hdiscover, -, -, hrefuse⟩ :=
    discovery_closed Sha1.digest Adler32.checksum {} [handleClass] hfit
  refine ⟨hfit, handleClass_presentable, handleClass_unresolvable, hdiscover.mpr fun d hd => ?_,
    hrefuse handleClass rfl handleClass_presentable handleClass_unresolvable⟩
  obtain rfl := List.mem_singleton.mp (ClassDef.definition?_mem hd)
  exact ⟨by decide, by decide⟩

end Container

end Dalvik
