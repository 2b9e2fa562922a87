/-
# Inference loses nothing

A whole number is stored in the narrowest type that admits it, taken as bits there: 200 becomes the
byte -56, and no other number becomes that byte, for negative numbers are always long.  So what
`infer` answers can be read back: bytes and ints as the numbers from zero on, shorts and longs as
they are, arrays item by item.  It follows that two values with one encoded form are the same.

What has no encoded form is a map, or a number beyond 64 bits, at any depth of lists.

* `untyped?_of_infer`: the encoded form reads back, by recursion over the value;
* `exists_error_iff`: what inference fails for;
* `infer_lossless`: the main statement.
-/
import Mathlib.Data.Int.ModEq
import Dalvik.Proofs.Outcome
import Dalvik.Value.Infer

namespace Dalvik

/-! ## 1. Whole numbers -/

/-- The types of whole numbers without `char`, the narrowest first. -/
def wholeTypes : List ValueType :=
  [.byte, .short, .int, .long]

namespace ValueType

/-- Whether a number is given the type, if no type before it takes the number. -/
def admits (n : Int) : ValueType → Bool
  | byte => decide (0 ≤ n ∧ n ≤ 0xFF)
  | short => decide (0 ≤ n ∧ n ≤ 0x7FFF)
  | int => decide (0 ≤ n ∧ n ≤ 0xFFFFFFFF)
  | long => decide (-2 ^ 63 ≤ n ∧ n < 2 ^ 63)
  | _ => false

/-- The number of bits of a number of the type. -/
def bits : ValueType → Nat
  | byte => 8
  | short => 16
  | int => 32
  | long => 64
  | _ => 0

end ValueType

/-- The number that a value of one of these types stores. -/
def EncodedValue.number? : EncodedValue → Option Int
  | byte v => some v.toInt
  | short v => some v.toInt
  | int v => some v.toInt
  | long v => some v.toInt
  | _ => none

/-- A value of the type that comes first of those that admit a number, storing the number modulo
the range of the type. -/
structure StoresNumber (n : Int) (x : EncodedValue) : Prop where
  first : wholeTypes.find? (ValueType.admits n) = some x.valueType
  congr : ∃ m, x.number? = some m ∧ m ≡ n [ZMOD 2 ^ x.valueType.bits]

namespace UntypedValue

variable {n : Int} {x : EncodedValue}

theorem find?_wholeTypes (n : Int) : wholeTypes.find? (ValueType.admits n) =
    if 0 ≤ n ∧ n ≤ 0xFF then some .byte
    else if 0 ≤ n ∧ n ≤ 0x7FFF then some .short
    else if 0 ≤ n ∧ n ≤ 0xFFFFFFFF then some .int
    else if -2 ^ 63 ≤ n ∧ n < 2 ^ 63 then some .long
    else none := by
  simp only [wholeTypes, List.find?_cons, List.find?_nil, ValueType.admits]
  split_ifs with hbyte hshort hint hlong
  · rw [decide_eq_true hbyte]
  · rw [decide_eq_false hbyte, decide_eq_true hshort]
  · rw [decide_eq_false hbyte, decide_eq_false hshort, decide_eq_true hint]
  · rw [decide_eq_false hbyte, decide_eq_false hshort, decide_eq_false hint, decide_eq_true hlong]
  · rw [decide_eq_false hbyte, decide_eq_false hshort, decide_eq_false hint, decide_eq_false hlong]

/-- The cases of a number, apart from each other, with what inference makes of it. -/
inductive InferredInt (n : Int) : Except Error EncodedValue → Prop
  | byte (hl : 0 ≤ n) (hu : n ≤ 0xFF) : InferredInt n (.ok (.byte (Int8.ofInt n)))
  | short (hl : 0xFF < n) (hu : n ≤ 0x7FFF) : InferredInt n (.ok (.short (Int16.ofInt n)))
  | int (hl : 0x7FFF < n) (hu : n ≤ 0xFFFFFFFF) : InferredInt n (.ok (.int (Int32.ofInt n)))
  | long (hout : n < 0 ∨ 0xFFFFFFFF < n) (hl : -2 ^ 63 ≤ n) (hu : n < 2 ^ 63) :
    InferredInt n (.ok (.long (Int64.ofInt n)))
  | beyond (hout : ¬(-2 ^ 63 ≤ n ∧ n < 2 ^ 63)) :
    InferredInt n (.error (.unsupportedValue s!"integer {n} exceeds 64 bits"))

theorem inferredInt (n : Int) : InferredInt n (inferInt n) := by
  have hlong : fitsSigned 64 n = true ↔ -2 ^ 63 ≤ n ∧ n < 2 ^ 63 := fitsSigned_iff
  unfold inferInt
  split_ifs with hbyte hshort hint hfits
  · exact .byte hbyte.1 hbyte.2
  · exact .short (by omega) hshort.2
  · exact .int (by omega) hint.2
  · rw [hlong] at hfits
    exact .long (by omega) hfits.1 hfits.2
  · rw [hlong] at hfits
    exact .beyond hfits

theorem storesNumber_of_inferInt (h : inferInt n = .ok x) : StoresNumber n x := by
  have hn := inferredInt n
  rw [h] at hn
  cases hn with
  | byte hl hu =>
    refine ⟨?_, _, rfl, ?_⟩
    · rw [find?_wholeTypes, if_pos ⟨hl, hu⟩]
      rfl
    · rw [Int8.toInt_ofInt]
      exact Int.bmod_emod
  | short hl hu =>
    refine ⟨?_, _, rfl, ?_⟩
    · rw [find?_wholeTypes, if_neg (by omega), if_pos ⟨by omega, hu⟩]
      rfl
    · rw [Int16.toInt_ofInt]
      exact Int.bmod_emod
  | int hl hu =>
    refine ⟨?_, _, rfl, ?_⟩
    · rw [find?_wholeTypes, if_neg (by omega), if_neg (by omega), if_pos ⟨by omega, hu⟩]
      rfl
    · rw [Int32.toInt_ofInt]
      exact Int.bmod_emod
  | long hout hl hu =>
    refine ⟨?_, _, rfl, ?_⟩
    · rw [find?_wholeTypes, if_neg (by omega), if_neg (by omega), if_neg (by omega),
        if_pos ⟨hl, hu⟩]
      rfl
    · rw [Int64.toInt_ofInt]
      exact Int.bmod_emod

end UntypedValue

/-! ## 2. Reading back -/

mutual

/-- The untyped value of which a value is the encoded form.  Bytes and ints stand for the numbers
from zero on. -/
def EncodedValue.untyped? : EncodedValue → Option UntypedValue
  | .byte v => some (.int (v.toInt % 0x100))
  | .short v => some (.int v.toInt)
  | .int v => some (.int (v.toInt % 0x100000000))
  | .long v => some (.int v.toInt)
  | .double bits => some (.float bits)
  | .string value => some (.string value)
  | .array values => (EncodedValue.untypedAll? values).map .list
  | .method m => some (.method m)
  | .field f => some (.field f)
  | .annotationValue a => some (.annotationValue a)
  | .null => some .null
  | .boolean value => some (.bool value)
  | _ => none
termination_by structural value => value

/-- The untyped values of which the values of a list are the encoded forms. -/
def EncodedValue.untypedAll? : List EncodedValue → Option (List UntypedValue)
  | [] => some []
  | value :: rest => do return (← value.untyped?) :: (← EncodedValue.untypedAll? rest)
termination_by structural values => values

end

namespace UntypedValue

theorem untyped?_of_inferInt {n : Int} {x : EncodedValue} (h : inferInt n = .ok x) :
    x.untyped? = some (.int n) := by
  have hn := inferredInt n
  rw [h] at hn
  cases hn with
  | byte hl hu =>
    have hback : (Int8.ofInt n).toInt % 0x100 = n := by
      rw [Int8.toInt_ofInt]
      exact Int.bmod_emod.trans (Int.emod_eq_of_lt hl (Int.lt_add_one_of_le hu))
    rw [EncodedValue.untyped?, hback]
  | short hl hu =>
    rw [EncodedValue.untyped?, Int16.toInt_ofInt_of_le (by omega) (by omega)]
  | int hl hu =>
    have hback : (Int32.ofInt n).toInt % 0x100000000 = n := by
      rw [Int32.toInt_ofInt]
      exact Int.bmod_emod.trans (Int.emod_eq_of_lt (by omega) (Int.lt_add_one_of_le hu))
    rw [EncodedValue.untyped?, hback]
  | long hout hl hu => rw [EncodedValue.untyped?, Int64.toInt_ofInt_of_le hl hu]

mutual

/-- **The encoded form reads back.** -/
theorem untyped?_of_infer : ∀ (v : UntypedValue) {x : EncodedValue},
    v.infer = .ok x → x.untyped? = some v
  | int n, _, h => untyped?_of_inferInt h
  | list values, _, h => by
    obtain ⟨xs, hxs, rfl⟩ := map_eq_ok.mp h
    rw [EncodedValue.untyped?, untypedAll?_of_inferAll values hxs]
    rfl
  | map entries, _, h => by cases h
  | null, _, h | bool _, _, h | float _, _, h | string _, _, h | method _, _, h | field _, _, h
  | annotationValue _, _, h => by
    obtain rfl := Except.ok.inj h
    rfl
termination_by structural v => v

theorem untypedAll?_of_inferAll : ∀ (values : List UntypedValue) {xs : List EncodedValue},
    inferAll values = .ok xs → EncodedValue.untypedAll? xs = some values
  | [], _, h => by
    obtain rfl := Except.ok.inj h
    rfl
  | v :: rest, _, h => by
    rw [inferAll] at h
    obtain ⟨x, hx, h⟩ := bind_eq_ok.mp h
    obtain ⟨xs, hxs, h⟩ := bind_eq_ok.mp h
    obtain rfl := pure_eq_ok.mp h
    rw [EncodedValue.untypedAll?, untyped?_of_infer v hx, untypedAll?_of_inferAll rest hxs]
    rfl
termination_by structural values => values

end

/-! ## 3. What has no encoded form -/

/-- The first value is the second, or at some depth of lists inside it. -/
inductive Inside : UntypedValue → UntypedValue → Prop
  | self {v : UntypedValue} : Inside v v
  | list {v w : UntypedValue} {values : List UntypedValue} (hw : w ∈ values) (h : Inside v w) :
    Inside v (.list values)

/-- Why a value has no encoded form, whatever is inside it. -/
def refusal? : UntypedValue → Option String
  | int n =>
    if -2 ^ 63 ≤ n ∧ n < 2 ^ 63 then none else some s!"integer {n} exceeds 64 bits"
  | map entries => some s!"map with {entries.length} entries has no annotation type"
  | _ => none

theorem refusal?_of_inferInt {n : Int} {e : Error} (h : inferInt n = .error e) :
    ∃ text, (int n).refusal? = some text ∧ e = .unsupportedValue text := by
  have hn := inferredInt n
  rw [h] at hn
  cases hn with
  | beyond hout => exact ⟨_, if_neg hout, rfl⟩

theorem inferInt_eq_error_of_refusal? {n : Int} (h : (int n).refusal?.isSome) :
    ∃ e, inferInt n = .error e := by
  have hout : ¬(-2 ^ 63 ≤ n ∧ n < 2 ^ 63) := by
    intro hin
    rw [refusal?, if_pos hin] at h
    cases h
  have hn := inferredInt n
  cases hr : inferInt n with
  | error e => exact ⟨e, rfl⟩
  | ok x =>
    rw [hr] at hn
    cases hn <;> omega

theorem infer_eq_error_of_refusal? : ∀ {v : UntypedValue}, v.refusal?.isSome →
    ∃ e, v.infer = .error e
  | int _, h => inferInt_eq_error_of_refusal? h
  | map _, _ => ⟨_, rfl⟩

mutual

/-- A failure is that of a value inside. -/
theorem refusal?_of_infer : ∀ (v : UntypedValue) {e : Error}, v.infer = .error e →
    ∃ (w : UntypedValue) (text : String), w.Inside v ∧ w.refusal? = some text ∧
      e = .unsupportedValue text
  | int n, _, h => by
    obtain ⟨text, ht, he⟩ := refusal?_of_inferInt h
    exact ⟨int n, text, .self, ht, he⟩
  | list values, _, h => by
    obtain ⟨w, text, ⟨v, hv, hw⟩, ht, he⟩ := refusal?_of_inferAll values (map_eq_error.mp h)
    exact ⟨w, text, .list hv hw, ht, he⟩
  | map entries, _, h => ⟨map entries, _, .self, rfl, (Except.error.inj h).symm⟩
  | null, _, h | bool _, _, h | float _, _, h | string _, _, h | method _, _, h | field _, _, h
  | annotationValue _, _, h => by cases h
termination_by structural v => v

theorem refusal?_of_inferAll : ∀ (values : List UntypedValue) {e : Error},
    inferAll values = .error e →
    ∃ (w : UntypedValue) (text : String), (∃ v ∈ values, w.Inside v) ∧
      w.refusal? = some text ∧ e = .unsupportedValue text
  | [], _, h => by cases h
  | v :: rest, _, h => by
    rw [inferAll] at h
    cases hv : v.infer with
    | error c =>
      rw [hv] at h
      obtain rfl := Except.error.inj h
      obtain ⟨w, text, hw, ht, he⟩ := refusal?_of_infer v hv
      exact ⟨w, text, ⟨v, List.mem_cons_self .., hw⟩, ht, he⟩
    | ok x =>
      cases hrest : inferAll rest with
      | error c =>
        rw [hv, hrest] at h
        obtain rfl := Except.error.inj h
        obtain ⟨w, text, ⟨u, hu, hw⟩, ht, he⟩ := refusal?_of_inferAll rest hrest
        exact ⟨w, text, ⟨u, List.mem_cons_of_mem _ hu, hw⟩, ht, he⟩
      | ok xs =>
        rw [hv, hrest] at h
        cases h
termination_by structural values => values

end

/-- Where a value of a list has no encoded form, the list has none. -/
theorem inferAll_eq_error {values : List UntypedValue} {v : UntypedValue} (hv : v ∈ values)
    (h : ∃ e, v.infer = .error e) : ∃ e, inferAll values = .error e := by
  induction values with
  | nil => cases hv
  | cons first rest ih =>
    rw [inferAll]
    cases hfirst : first.infer with
    | error c => exact ⟨c, rfl⟩
    | ok x =>
      rcases List.mem_cons.mp hv with rfl | hv
      · obtain ⟨e, he⟩ := h
        rw [he] at hfirst
        cases hfirst
      · obtain ⟨e, he⟩ := ih hv
        rw [he]
        exact ⟨e, rfl⟩

/-- **Inference fails** exactly for a value that has another without encoded form inside it. -/
theorem exists_error_iff {v : UntypedValue} :
    (∃ e, v.infer = .error e) ↔ ∃ w : UntypedValue, w.Inside v ∧ w.refusal?.isSome := by
  constructor
  · rintro ⟨e, h⟩
    obtain ⟨w, text, hw, ht, -⟩ := refusal?_of_infer v h
    exact ⟨w, hw, by rw [ht]; rfl⟩
  · rintro ⟨w, hw, hsome⟩
    induction hw with
    | self => exact infer_eq_error_of_refusal? hsome
    | list hv _ ih =>
      obtain ⟨e, he⟩ := inferAll_eq_error hv ih
      exact ⟨e, map_eq_error.mpr he⟩

/-! ## 4. Nothing is lost -/

/-- **Inference is lossless.**  It fails, as unsupported, exactly for maps, numbers beyond 64 bits
and lists that have one of these at any depth.  Values that have one encoded form are the same, and
floating-point numbers are the same if their bits are.  A number has the first type that admits it,
and is stored modulo the range of that type; a negative one is long. -/
theorem infer_lossless :
    (∀ v : UntypedValue, (∃ e, v.infer = .error e) ↔
      ∃ w : UntypedValue, w.Inside v ∧ w.refusal?.isSome) ∧
    (∀ (v : UntypedValue) (e : Error), v.infer = .error e →
      ∃ (w : UntypedValue) (text : String), w.Inside v ∧ w.refusal? = some text ∧
      e = .unsupportedValue text) ∧
    (∀ (v w : UntypedValue) (x : EncodedValue), v.infer = .ok x → w.infer = .ok x → v = w) ∧
    (∀ (n : Int) (x : EncodedValue), (int n).infer = .ok x →
      StoresNumber n x ∧ (n < 0 → x.valueType = .long)) := by
  refine ⟨fun v => exists_error_iff, fun v e => refusal?_of_infer v, ?_, ?_⟩
  · intro v w x hv hw
    have hback := untyped?_of_infer v hv
    rw [untyped?_of_infer w hw] at hback
    exact (Option.some.inj hback).symm
  · intro n x h
    have hstores := storesNumber_of_inferInt h
    refine ⟨hstores, fun hneg => ?_⟩
    have hfirst := hstores.first
    rw [find?_wholeTypes, if_neg (by omega), if_neg (by omega), if_neg (by omega)] at hfirst
    split_ifs at hfirst
    exact (Option.some.inj hfirst).symm

/-- The byte -56 stands for 200 alone, and a map is found at any depth. -/
theorem infer_lossless_twoHundred :
    (int 200).infer = .ok (.byte (-56)) ∧ StoresNumber 200 (.byte (-56)) ∧
      (∀ v : UntypedValue, v.infer = .ok (.byte (-56)) → v = int 200) ∧
        ∃ e, (list [int 200, list [null, map [("key", int 200)]]]).infer = .error e := by
  obtain ⟨hfails, -, hsame, hint⟩ := infer_lossless
  have hbyte : (int 200).infer = .ok (.byte (-56)) := rfl
  have hinside : (map [("key", int 200)]).Inside
      (list [int 200, list [null, map [("key", int 200)]]]) :=
    .list (.tail _ (.head _)) (.list (.tail _ (.head _)) .self)
  exact ⟨hbyte, (hint 200 _ hbyte).1, fun v hv => hsame v _ _ hv hbyte,
    (hfails _).mpr ⟨_, hinside, rfl⟩⟩

end UntypedValue

end Dalvik
