/-
# Program order

The place of an instruction is its number among the lines of the program, and its offset is the
width of the lines before that place.  Every line is at least one code unit wide, so offsets grow
from place to place: program order is the order of offsets, no two instructions begin at one offset,
and none begins inside another.

* `offsetOf_iff_place`: offsets by places;
* `Line.startingAt?_eq_some`: what begins at an offset;
* `Sound.atOrBefore_iff_le`, `Sound.atOrBefore_iff_lt`: program order by offsets;
* `offsets_agree_with_units`: the main statement, which adds that the code units of an instruction
  are those from its offset on.
-/
import Dalvik.Proofs.Body.Generations
import Dalvik.Proofs.Body.Units

namespace Dalvik

/-! ## 1. The first lines -/

namespace Line

variable {lines : List Line} {h : Handle}

theorem widthOf_append (front back : List Line) :
    widthOf (front ++ back) = widthOf front + widthOf back := by
  induction front with
  | nil => simp [widthOf]
  | cons l front ih =>
    have hcons (rest : List Line) : widthOf (l :: rest) = l.width + widthOf rest := rfl
    rw [List.cons_append, hcons, hcons, ih, Nat.add_assoc]

theorem widthOf_take_succ {p : Nat} {l : Line} (hl : lines[p]? = some l) :
    widthOf (lines.take (p + 1)) = widthOf (lines.take p) + l.width := by
  rw [List.take_add_one, widthOf_append, hl]
  rfl

theorem widthOf_take_mono (lines : List Line) {p q : Nat} (hpq : p ≤ q) :
    widthOf (lines.take p) ≤ widthOf (lines.take q) := by
  have hsplit := widthOf_append ((lines.take q).take p) ((lines.take q).drop p)
  rw [List.take_append_drop, List.take_take, Nat.min_eq_left hpq] at hsplit
  omega

/-- The offset of a handle is the width of the lines before its own. -/
theorem offset?_eq (h : Handle) (lines : List Line) :
    offset? h lines =
      (lines.findIdx? (·.handle = h)).map fun p => widthOf (lines.take p) := by
  induction lines with
  | nil => rfl
  | cons l lines ih =>
    rw [offset?, List.findIdx?_cons]
    by_cases hl : l.handle = h
    · simp [hl, widthOf]
    · simp only [hl, if_false, decide_false, Bool.false_eq_true, ih, Option.map_map]
      rfl

/-- A line begins where the lines before it end. -/
theorem startingAt?_eq_some {offset : Nat} :
    startingAt? lines offset = some h ↔
      ∃ p l, lines[p]? = some l ∧ l.handle = h ∧ widthOf (lines.take p) = offset := by
  induction lines generalizing offset with
  | nil => simp [startingAt?]
  | cons l lines ih =>
    have hpos : 0 < l.width := l.instruction.width_pos
    have htake (p : Nat) : widthOf ((l :: lines).take (p + 1)) =
        l.width + widthOf (lines.take p) := rfl
    cases offset with
    | zero =>
      rw [startingAt?, Option.some.injEq]
      constructor
      · intro hl
        exact ⟨0, l, rfl, hl, rfl⟩
      · rintro ⟨p, l', hl', hh, hp⟩
        cases p with
        | zero =>
          obtain rfl := Option.some.inj hl'
          exact hh
        | succ p =>
          rw [htake] at hp
          omega
    | succ n =>
      have hstep : startingAt? (l :: lines) (n + 1) =
          if l.width ≤ n + 1 then startingAt? lines (n + 1 - l.width) else none := rfl
      rw [hstep]
      constructor
      · intro hstart
        split at hstart
        · rename_i hle
          obtain ⟨p, l', hl', hh, hp⟩ := ih.mp hstart
          refine ⟨p + 1, l', hl', hh, ?_⟩
          rw [htake]
          omega
        · cases hstart
      · rintro ⟨p, l', hl', hh, hp⟩
        cases p with
        | zero => cases hp
        | succ p =>
          rw [htake] at hp
          rw [if_pos (by omega)]
          exact ih.mpr ⟨p, l', hl', hh, by omega⟩

end Line

namespace Body

/-! ## 2. Places -/

/-- The number of an instruction in the program. -/
def place? (b : Body) (h : Handle) : Option Nat :=
  b.lines.findIdx? (·.handle = h)

/-- The program has the first instruction before the second, or they are the same. -/
def AtOrBefore (b : Body) (h h' : Handle) : Prop :=
  ∃ p ∈ b.place? h, ∃ q ∈ b.place? h', p ≤ q

instance (b : Body) (h h' : Handle) : Decidable (b.AtOrBefore h h') :=
  inferInstanceAs (Decidable (∃ p ∈ b.place? h, ∃ q ∈ b.place? h', p ≤ q))

section Places

variable {b : Body} {h h' : Handle} {p : Nat}

theorem line_of_place (hp : b.place? h = some p) :
    ∃ i, b.lines[p]? = some ⟨h, i⟩ ∧ b.get h = .ok i := by
  obtain ⟨hlt, hh, -⟩ := List.findIdx?_eq_some_iff_getElem.mp hp
  obtain rfl : b.lines[p].handle = h := of_decide_eq_true hh
  exact ⟨_, List.getElem?_eq_getElem hlt, get_of_mem_lines (List.getElem_mem hlt)⟩

/-- No two lines have one handle, so each line is found at its place. -/
theorem Sound.place?_of_line (hb : b.Sound) {l : Line} (hl : b.lines[p]? = some l) :
    b.place? l.handle = some p := by
  obtain ⟨hp, rfl⟩ := List.getElem?_eq_some_iff.mp hl
  refine List.findIdx?_eq_some_iff_getElem.mpr ⟨hp, decide_eq_true rfl, fun q hq hsame => ?_⟩
  have hhandle : (b.lines.map (·.handle))[q]? = (b.lines.map (·.handle))[p]? := by
    rw [List.getElem?_map, List.getElem?_map, List.getElem?_eq_getElem hp,
      List.getElem?_eq_getElem (Nat.lt_trans hq hp)]
    exact congrArg some (of_decide_eq_true hsame)
  have hlength : q < (b.lines.map (·.handle)).length := by
    rw [List.length_map]
    exact Nat.lt_trans hq hp
  exact Nat.ne_of_lt hq ((List.getElem?_inj hlength hb.handles_nodup).mp hhandle)

/-- **Offsets by places.** -/
theorem offsetOf_iff_place {offset : Nat} :
    b.offsetOf h = .ok offset ↔
      ∃ p, b.place? h = some p ∧ Line.widthOf (b.lines.take p) = offset := by
  have hmap : Line.offset? h b.lines = (b.place? h).map fun p => Line.widthOf (b.lines.take p) :=
    Line.offset?_eq h b.lines
  constructor
  · intro ho
    obtain ⟨i, -, ho⟩ := bind_eq_ok.mp ho
    rw [hmap] at ho
    cases hp : b.place? h with
    | none =>
      rw [hp] at ho
      exact absurd ho throw_ne_ok
    | some p =>
      rw [hp] at ho
      exact ⟨p, rfl, pure_eq_ok.mp ho⟩
  · rintro ⟨p, hp, rfl⟩
    obtain ⟨i, -, hi⟩ := line_of_place hp
    refine bind_eq_ok.mpr ⟨i, hi, ?_⟩
    rw [hmap, hp]
    rfl

/-- A live instruction has a place; it begins after the lines before it, and ends with its own. -/
theorem Live.exists_place (hb : b.Sound) (hl : b.Live h) :
    ∃ p, b.place? h = some p ∧ b.before h.index = Line.widthOf (b.lines.take p) ∧
      b.finish h.index = Line.widthOf (b.lines.take (p + 1)) := by
  obtain ⟨p, hp, hbefore⟩ := offsetOf_iff_place.mp (hl.offsetOf hb)
  obtain ⟨i, hline, hi⟩ := line_of_place hp
  refine ⟨p, hp, hbefore.symm, ?_⟩
  rw [Line.widthOf_take_succ hline, hbefore, finish, slotWidth_of_get hi]
  rfl

theorem Live.finish_le (hb : b.Sound) (hl : b.Live h) : b.finish h.index ≤ b.codeUnits := by
  obtain ⟨p, -, -, hfinish⟩ := hl.exists_place hb
  have hall := Line.widthOf_take_mono b.lines (Nat.le_max_left (p + 1) b.lines.length)
  rw [List.take_of_length_le (Nat.le_max_right _ _)] at hall
  rw [hfinish]
  exact hall

theorem atOrBefore_iff_place {q : Nat} (hp : b.place? h = some p) (hq : b.place? h' = some q) :
    b.AtOrBefore h h' ↔ p ≤ q := by
  constructor
  · rintro ⟨p', hp', q', hq', hle⟩
    obtain rfl := Option.some.inj (hp.symm.trans hp')
    obtain rfl := Option.some.inj (hq.symm.trans hq')
    exact hle
  · intro hle
    exact ⟨p, hp, q, hq, hle⟩

/-- **No instruction begins inside another**: one that begins before another ends is the other, or
comes before it. -/
theorem Sound.atOrBefore_iff_lt (hb : b.Sound) (hl : b.Live h) (hl' : b.Live h') :
    b.AtOrBefore h h' ↔ b.before h.index < b.finish h'.index := by
  have hown := hl'.before_lt_finish
  obtain ⟨p, hp, hbefore, -⟩ := hl.exists_place hb
  obtain ⟨q, hq, hbefore', hfinish'⟩ := hl'.exists_place hb
  rw [atOrBefore_iff_place hp hq]
  constructor
  · intro hle
    have hmono := Line.widthOf_take_mono b.lines hle
    omega
  · intro hlt
    refine Nat.le_of_not_lt fun hqp => ?_
    have hnext : q + 1 ≤ p := hqp
    have hmono := Line.widthOf_take_mono b.lines hnext
    omega

/-- **Program order is the order of offsets.** -/
theorem Sound.atOrBefore_iff_le (hb : b.Sound) (hl : b.Live h) (hl' : b.Live h') :
    b.AtOrBefore h h' ↔ b.before h.index ≤ b.before h'.index := by
  constructor
  · intro ho
    obtain ⟨p, hp, hbefore, -⟩ := hl.exists_place hb
    obtain ⟨q, hq, hbefore', -⟩ := hl'.exists_place hb
    rw [hbefore, hbefore']
    exact Line.widthOf_take_mono b.lines ((atOrBefore_iff_place hp hq).mp ho)
  · intro hle
    exact (hb.atOrBefore_iff_lt hl hl').mpr (Nat.lt_of_le_of_lt hle hl'.before_lt_finish)

/-- What comes at or before an instruction ends at or before its end. -/
theorem Sound.finish_le_finish (hb : b.Sound) (hl : b.Live h) (hl' : b.Live h')
    (ho : b.AtOrBefore h h') : b.finish h.index ≤ b.finish h'.index := by
  obtain ⟨p, hp, -, hfinish⟩ := hl.exists_place hb
  obtain ⟨q, hq, -, hfinish'⟩ := hl'.exists_place hb
  rw [hfinish, hfinish']
  exact Line.widthOf_take_mono b.lines (Nat.succ_le_succ ((atOrBefore_iff_place hp hq).mp ho))

/-! ## 3. What begins at an offset -/

theorem Sound.instructionAt?_eq_some (hb : b.Sound) {offset : Nat} :
    b.instructionAt? offset = some h ↔ b.offsetOf h = .ok offset := by
  rw [instructionAt?, Line.startingAt?_eq_some, offsetOf_iff_place]
  constructor
  · rintro ⟨p, l, hl, rfl, hp⟩
    exact ⟨p, hb.place?_of_line hl, hp⟩
  · rintro ⟨p, hplace, hp⟩
    obtain ⟨i, hline, -⟩ := line_of_place hplace
    exact ⟨p, _, hline, rfl, hp⟩

/-- Offsets grow from line to line. -/
theorem Sound.pairwise_offsets (hb : b.Sound) :
    b.lines.Pairwise fun l l' => ∃ offset offset', b.offsetOf l.handle = .ok offset ∧
      b.offsetOf l'.handle = .ok offset' ∧ offset < offset' := by
  refine List.pairwise_iff_getElem.mpr fun p q hp hq hpq => ?_
  have hline := List.getElem?_eq_getElem hp
  have hplace := hb.place?_of_line hline
  have hplace' := hb.place?_of_line (List.getElem?_eq_getElem hq)
  refine ⟨_, _, offsetOf_iff_place.mpr ⟨p, hplace, rfl⟩, offsetOf_iff_place.mpr ⟨q, hplace', rfl⟩,
    ?_⟩
  have hpos : 0 < b.lines[p].width := b.lines[p].instruction.width_pos
  have hnext : p + 1 ≤ q := hpq
  have hmono := Line.widthOf_take_mono b.lines hnext
  rw [Line.widthOf_take_succ hline] at hmono
  omega

end Places

/-! ## 4. Offsets and code units -/

/-- **Offsets agree with code units.**  Whatever calls led to a body of instructions that were built
or read: an instruction begins at an offset exactly if it is live and has that offset; offsets grow
along the program; and if the body can be encoded, it takes as many code units as it is wide, those
of an instruction from its offset on. -/
theorem offsets_agree_with_units {b : Body} (hb : b.Made) :
    (∀ offset h, b.instructionAt? offset = some h ↔ b.Live h ∧ b.offsetOf h = .ok offset) ∧
    (b.lines.Pairwise fun l l' => ∃ offset offset', b.offsetOf l.handle = .ok offset ∧
      b.offsetOf l'.handle = .ok offset' ∧ offset < offset') ∧
    (∀ ix units, b.encode ix = .ok units → units.length = b.codeUnits ∧
      ∀ h i, b.get h = .ok i → ∃ offset, b.offsetOf h = .ok offset ∧
        offset + i.width ≤ units.length ∧
        i.encode ix = .ok ((units.drop offset).take i.width)) := by
  have hsound := hb.reachable.anchored.sound
  refine ⟨?_, hsound.pairwise_offsets, ?_⟩
  · intro offset h
    rw [hsound.instructionAt?_eq_some]
    constructor
    · intro ho
      exact ⟨((offsetOf_eq_ok hsound).mp ho).1, ho⟩
    · rintro ⟨-, ho⟩
      exact ho
  · intro ix units he
    constructor
    · exact Line.length_of_encodeAll (fun _ => hb.shaped.of_mem_lines) (encode_eq_ok.mp he)
    · intro h i hi
      obtain ⟨pre, post, ho⟩ := hsound.exists_split ⟨i, hi⟩
      obtain ⟨before, part, after, -, hpart, -, rfl, hfront, hwidth⟩ :=
        encode_split hsound hb.shaped hi ho he
      refine ⟨b.before h.index, Live.offsetOf hsound ⟨i, hi⟩, ?_, ?_⟩
      · rw [List.length_append, List.length_append]
        omega
      · rw [← hfront, ← hwidth, List.drop_left, List.take_left]
        exact hpart

/-- A wide constant, the end of a method and an array of bytes; then the constant is removed and the
array replaced by one of two halfwords, which is as wide. -/
def rewrittenArray : Body :=
  let constant : Instruction :=
    { opcode := 0x18, format := .f51l, registers := [0], operand := .literal 7 }
  let leave : Instruction := { opcode := 0x0e, format := .f10x }
  (ofInstructions [constant, leave, .arrayDataPayload 1 [1, 2, 3]]).after
    [.remove ⟨0, 0⟩, .replaceOperand ⟨2, 0⟩ (.arrayData 2 [1, 2, 3, 4])]

theorem offsets_agree_with_units_rewrittenArray :
    let units : List UInt16 := [0, 0, 0, 0, 0, 0x000e, 0x0300, 2, 2, 0, 0x0201, 0x0403]
    rewrittenArray.Made ∧ rewrittenArray.instructionAt? 6 = some ⟨2, 0⟩ ∧
      rewrittenArray.encode Indexer.rawIndices = .ok units ∧ rewrittenArray.codeUnits = 12 ∧
      (Instruction.arrayDataPayload 2 [1, 2, 3, 4]).encode Indexer.rawIndices =
        .ok ((units.drop 6).take 6) := by
  intro units
  have hconstant : Instruction.build? 0x18 [0] (.literal 7) =
      .ok { opcode := 0x18, format := .f51l, registers := [0], operand := .literal 7 } := by
    decide +kernel
  have hleave : Instruction.build? 0x0e [] .none =
      .ok { opcode := 0x0e, format := .f10x } := by decide +kernel
  have hmade : rewrittenArray.Made := by
    refine (Made.ofInstructions ?_).after ?_
    · simp only [List.forall_mem_cons, List.not_mem_nil, false_implies, implies_true, and_true]
      exact ⟨.built (.checked hconstant), .built (.checked hleave),
        .built (.table (.arrayData _ _))⟩
    · simp
  have hget : rewrittenArray.get ⟨2, 0⟩ = .ok (.arrayDataPayload 2 [1, 2, 3, 4]) := by
    decide +kernel
  have hoffset : rewrittenArray.offsetOf ⟨2, 0⟩ = .ok 6 := by decide +kernel
  have hunits : rewrittenArray.encode Indexer.rawIndices = .ok units := by decide +kernel
  obtain ⟨hat, -, hencode⟩ := offsets_agree_with_units hmade
  obtain ⟨hlength, hparts⟩ := hencode _ _ hunits
  obtain ⟨offset, ho, -, hpart⟩ := hparts _ _ hget
  obtain rfl := Except.ok.inj (hoffset.symm.trans ho)
  exact ⟨hmade, (hat 6 ⟨2, 0⟩).mpr ⟨⟨_, hget⟩, hoffset⟩, hunits, hlength.symm, hpart⟩

end Body

end Dalvik
