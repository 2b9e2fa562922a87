/-
# Instruction formats

A format says how an instruction is packed into code units.  The first digit of its name is the
width in code units, the second the number of registers, and the letter the kind of operand; the
three payload formats hold switch tables and array data among the code.
-/

namespace Dalvik

/-- How an instruction is packed into code units. -/
inductive Format where
  | f10x
  | f12x
  | f11n
  | f11x
  | f10t
  | f20t
  | f22x
  | f21t
  | f21s
  | f21h
  | f21c
  | f23x
  | f22b
  | f22t
  | f22s
  | f22c
  | f32x
  | f30t
  | f31t
  | f31i
  | f31c
  | f35c
  | f3rc
  | f45cc
  | f4rcc
  | f51l
  | packedSwitch
  | sparseSwitch
  | arrayData
  deriving DecidableEq, Repr, Inhabited

namespace Format

/-- The name of the format. -/
def text : Format → String
  | f10x => "10x"
  | f12x => "12x"
  | f11n => "11n"
  | f11x => "11x"
  | f10t => "10t"
  | f20t => "20t"
  | f22x => "22x"
  | f21t => "21t"
  | f21s => "21s"
  | f21h => "21h"
  | f21c => "21c"
  | f23x => "23x"
  | f22b => "22b"
  | f22t => "22t"
  | f22s => "22s"
  | f22c => "22c"
  | f32x => "32x"
  | f30t => "30t"
  | f31t => "31t"
  | f31i => "31i"
  | f31c => "31c"
  | f35c => "35c"
  | f3rc => "3rc"
  | f45cc => "45cc"
  | f4rcc => "4rcc"
  | f51l => "51l"
  | packedSwitch => "packed-switch-payload"
  | sparseSwitch => "sparse-switch-payload"
  | arrayData => "fill-array-data-payload"

/-- Every format. -/
def all : List Format :=
  [f10x, f12x, f11n, f11x, f10t, f20t, f22x, f21t, f21s,
    f21h, f21c, f23x, f22b, f22t, f22s, f22c, f32x, f30t,
    f31t, f31i, f31c, f35c, f3rc, f45cc, f4rcc, f51l, packedSwitch,
    sparseSwitch, arrayData]

/-- The format of a name. -/
def ofText? (name : String) : Option Format :=
  all.find? fun format => format.text == name

/-- The width in code units; of a payload, the width of its head (`width`). -/
def width : Format → Nat
  | f10x | f12x | f11n | f11x | f10t => 1
  | f20t | f22x | f21t | f21s | f21h | f21c | f23x | f22b | f22t
  | f22s | f22c | sparseSwitch => 2
  | f32x | f30t | f31t | f31i | f31c | f35c | f3rc => 3
  | f45cc | f4rcc | packedSwitch | arrayData => 4
  | f51l => 5

theorem width_pos (format : Format) : 0 < format.width := by
  cases format <;> decide

/-- Whether the format is one of the three payloads (`is_payload`). -/
def isPayload : Format → Bool
  | packedSwitch | sparseSwitch | arrayData => true
  | _ => false

/-- Whether the operand is a branch distance (`is_branch`). -/
def isBranch : Format → Bool
  | f10t | f20t | f30t | f21t | f22t | f31t => true
  | _ => false

/-- Whether the registers are the arguments of a call (`is_invoke`). -/
def isInvoke : Format → Bool
  | f35c | f3rc | f45cc | f4rcc => true
  | _ => false

end Format

end Dalvik
