/-
# Hexadecimal text

Numbers in messages are written in lowercase hexadecimal, either bare or padded with zeros to a
least width.  `hex_length` says that the padding never shortens and always reaches the width.
-/

namespace Dalvik.Text

/-- The lowercase hexadecimal digits of a number, without leading zeros. -/
def hex (n : Nat) : String :=
  String.ofList (Nat.toDigits 16 n)

/-- The hexadecimal digits of a number, padded with zeros to at least `width` characters. -/
def hexPadded (width n : Nat) : String :=
  String.ofList ((Nat.toDigits 16 n).leftpad width '0')

@[simp] theorem hex_length (width n : Nat) :
    (hexPadded width n).length = max width (Nat.toDigits 16 n).length := by
  simp [hexPadded, List.leftpad]
  omega

end Dalvik.Text
