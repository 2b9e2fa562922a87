/-
# Modified UTF-8

The byte form of strings in a container: each UTF-16 code unit is written on its own in one, two or
three bytes, so a character above U+FFFF takes six, and the unit zero takes two so that a zero byte
can end the string.

The reader is laxer than the writer: it takes any one, two or three byte group whose continuation
bytes are in place, also one that spells a unit in more bytes than needed.
-/
import Dalvik.Error
import Dalvik.Text.Utf16

namespace Dalvik.Mutf8

open Text (units chars?)

/-! ## 1. Writing -/

/-- The continuation byte of the lowest six bits (`continuation`). -/
def continuation (bits : UInt16) : UInt8 :=
  (bits &&& 0x3F).toUInt8 ||| 0x80

/-- The bytes of one code unit. -/
def encodeUnit (u : UInt16) : List UInt8 :=
  if 0 < u && u < 0x80 then
    [u.toUInt8]
  else if u < 0x800 then
    [(u >>> 6).toUInt8 ||| 0xC0, continuation u]
  else
    [(u >>> 12).toUInt8 ||| 0xE0, continuation (u >>> 6), continuation u]

/-- The bytes of a string, without the zero byte that ends it in a container (`encode`). -/
def encode (s : String) : List UInt8 :=
  (units s).flatMap encodeUnit

/-! ## 2. Reading -/

/-- A byte of the form `10xxxxxx`. -/
def isContinuation (b : UInt8) : Bool :=
  b &&& 0xC0 == 0x80

/-- The six bits that a continuation byte carries. -/
def payload (b : UInt8) : UInt16 :=
  (b &&& 0x3F).toUInt16

/-- A group ends before its continuation byte at this offset. -/
def truncated (offset : Nat) : Error :=
  .malformed s!"Truncated MUTF-8 sequence at offset {offset}"

/-- No group begins with this byte. -/
def invalidLead (lead : UInt8) (offset : Nat) : Error :=
  .malformed s!"Invalid MUTF-8 lead byte 0x{Text.hexPadded 2 lead.toNat} at {offset}"

/-- The code units of the groups in the given bytes; `offset` is where the bytes begin. -/
def decodeUnits (offset : Nat) : List UInt8 → Except Error (List UInt16)
  | [] => .ok []
  | a :: rest =>
    if a < 0x80 then
      (decodeUnits (offset + 1) rest).map (a.toUInt16 :: ·)
    else if a >>> 5 == 6 then
      match rest with
      | [] => .error (truncated (offset + 1))
      | b :: rest =>
        if isContinuation b then
          (decodeUnits (offset + 2) rest).map
            (((a &&& 0x1F).toUInt16 <<< 6 ||| payload b) :: ·)
        else
          .error (truncated (offset + 1))
    else if a >>> 4 == 14 then
      match rest with
      | [] => .error (truncated (offset + 1))
      | b :: rest =>
        if isContinuation b then
          match rest with
          | [] => .error (truncated (offset + 2))
          | c :: rest =>
            if isContinuation c then
              (decodeUnits (offset + 3) rest).map
                (((a &&& 0x0F).toUInt16 <<< 12 ||| payload b <<< 6 ||| payload c) :: ·)
            else
              .error (truncated (offset + 2))
        else
          .error (truncated (offset + 1))
    else
      .error (invalidLead a offset)

/-- The string that the bytes spell (`decode`). -/
def decode (bytes : List UInt8) : Except Error String := do
  match chars? (← decodeUnits 0 bytes) with
  | some chars => .ok (String.ofList chars)
  | none => .error (.malformed "Unpaired surrogate in MUTF-8 data")

end Dalvik.Mutf8
