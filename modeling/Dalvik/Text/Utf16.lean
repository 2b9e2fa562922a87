/-
# UTF-16 code units of a string

Lengths and orders in a container are those of the UTF-16 form of a string, not of its characters.
`units` is that form, `chars?` reads it back, and `compareUnits` is the order of the string pool:
a character above U+FFFF is below U+E000, because its form begins with a surrogate.
-/

namespace Dalvik.Text

/-! ## 1. Writing -/

/-- The code units of one character: itself below U+10000, a surrogate pair from there on. -/
def charUnits (c : Char) : List UInt16 :=
  let code := c.toNat
  if code < 0x10000 then
    [code.toUInt16]
  else
    [(0xD800 + (code - 0x10000) / 0x400).toUInt16, (0xDC00 + (code - 0x10000) % 0x400).toUInt16]

/-- The code units of a string. -/
def units (s : String) : List UInt16 :=
  s.toList.flatMap charUnits

/-- The length of a string in code units (`utf16_len`). -/
def unitLength (s : String) : Nat :=
  (units s).length

/-! ## 2. Reading -/

/-- The first half of a surrogate pair. -/
def isHighSurrogate (u : UInt16) : Bool :=
  0xD800 ≤ u && u < 0xDC00

/-- The second half of a surrogate pair. -/
def isLowSurrogate (u : UInt16) : Bool :=
  0xDC00 ≤ u && u < 0xE000

/-- The character that a surrogate pair stands for. -/
def pairChar (high low : UInt16) : Char :=
  Char.ofNat (0x10000 + (high.toNat - 0xD800) * 0x400 + (low.toNat - 0xDC00))

/-- The characters that code units spell, or none if a surrogate stands alone. -/
def chars? : List UInt16 → Option (List Char)
  | [] => some []
  | u :: rest =>
    if isHighSurrogate u then
      match rest with
      | [] => none
      | v :: rest => if isLowSurrogate v then (chars? rest).map (pairChar u v :: ·) else none
    else if isLowSurrogate u then
      none
    else
      (chars? rest).map (Char.ofNat u.toNat :: ·)

/-! ## 3. Order -/

/-- **The order of the string pool**: lexicographic in the code units (`utf16_cmp`). -/
def compareUnits (a b : String) : Ordering :=
  compare (units a) (units b)

/-- At most, in the order of code units. -/
def unitsLE (a b : String) : Bool :=
  (compareUnits a b).isLE

end Dalvik.Text
