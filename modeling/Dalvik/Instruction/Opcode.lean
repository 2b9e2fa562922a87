/-
# The opcode table

Each of the 256 opcodes is assigned a mnemonic, a format and the pools its operand refers into, or
is not assigned at all.  The table is written down in runs of neighbouring opcodes that share all
but the mnemonic, and `Operation.opcode` finds an opcode again from its mnemonic.
-/
import Dalvik.Error
import Dalvik.Instruction.Format
import Dalvik.Reference.Basic

namespace Dalvik

/-! ## 1. Entries -/

/-- What the table says of one opcode (`OperationSpec`). -/
structure Operation where
  /-- The mnemonic, empty if the opcode is not assigned. -/
  mnemonic : String
  /-- How the operand is packed. -/
  format : Format
  /-- The pools that the operand refers into, in the order of encoding. -/
  references : List ReferenceKind
  deriving DecidableEq, Repr, Inhabited

namespace Operation

/-- The entry of an opcode that is not assigned. -/
def unassigned : Operation :=
  ⟨"", .f10x, []⟩

/-- Whether the opcode is assigned (`is_assigned`). -/
def isAssigned (o : Operation) : Bool :=
  o.mnemonic != ""

/-- A run of opcodes that share a format and the pools they refer into. -/
def run (format : Format) (references : List ReferenceKind) (mnemonics : List String) :
    List Operation :=
  mnemonics.map fun mnemonic => ⟨mnemonic, format, references⟩

/-- A run of opcodes that are not assigned. -/
def gap (count : Nat) : List Operation :=
  List.replicate count unassigned

/-! ## 2. The runs, in order -/

/-- Copies between registers, from 0x00. -/
def moves : List Operation :=
  run .f10x [] ["nop"] ++
    run .f12x [] ["move"] ++
    run .f22x [] ["move/from16"] ++
    run .f32x [] ["move/16"] ++
    run .f12x [] ["move-wide"] ++
    run .f22x [] ["move-wide/from16"] ++
    run .f32x [] ["move-wide/16"] ++
    run .f12x [] ["move-object"] ++
    run .f22x [] ["move-object/from16"] ++
    run .f32x [] ["move-object/16"]

/-- Results and returns, from 0x0a. -/
def results : List Operation :=
  run .f11x [] ["move-result", "move-result-wide", "move-result-object", "move-exception"] ++
    run .f10x [] ["return-void"] ++
    run .f11x [] ["return", "return-wide", "return-object"]

/-- Constants, from 0x12. -/
def constants : List Operation :=
  run .f11n [] ["const/4"] ++
    run .f21s [] ["const/16"] ++
    run .f31i [] ["const"] ++
    run .f21h [] ["const/high16"] ++
    run .f21s [] ["const-wide/16"] ++
    run .f31i [] ["const-wide/32"] ++
    run .f51l [] ["const-wide"] ++
    run .f21h [] ["const-wide/high16"] ++
    run .f21c [.string] ["const-string"] ++
    run .f31c [.string] ["const-string/jumbo"] ++
    run .f21c [.type] ["const-class"]

/-- Monitors, type checks and arrays, from 0x1d. -/
def objects : List Operation :=
  run .f11x [] ["monitor-enter", "monitor-exit"] ++
    run .f21c [.type] ["check-cast"] ++
    run .f22c [.type] ["instance-of"] ++
    run .f12x [] ["array-length"] ++
    run .f21c [.type] ["new-instance"] ++
    run .f22c [.type] ["new-array"] ++
    run .f35c [.type] ["filled-new-array"] ++
    run .f3rc [.type] ["filled-new-array/range"] ++
    run .f31t [] ["fill-array-data"]

/-- Jumps and switches, from 0x27. -/
def jumps : List Operation :=
  run .f11x [] ["throw"] ++
    run .f10t [] ["goto"] ++
    run .f20t [] ["goto/16"] ++
    run .f30t [] ["goto/32"] ++
    run .f31t [] ["packed-switch", "sparse-switch"]

/-- Comparisons, from 0x2d. -/
def comparisons : List Operation :=
  run .f23x [] ["cmpl-float", "cmpg-float", "cmpl-double", "cmpg-double", "cmp-long"]

/-- Conditional branches, from 0x32. -/
def conditions : List Operation :=
  run .f22t [] ["if-eq", "if-ne", "if-lt", "if-ge", "if-gt", "if-le"] ++
    run .f21t [] ["if-eqz", "if-nez", "if-ltz", "if-gez", "if-gtz", "if-lez"] ++
    gap 6

/-- Array elements, from 0x44. -/
def arrayAccesses : List Operation :=
  run .f23x [] ["aget", "aget-wide", "aget-object", "aget-boolean", "aget-byte", "aget-char",
    "aget-short", "aput", "aput-wide", "aput-object", "aput-boolean", "aput-byte",
    "aput-char", "aput-short"]

/-- Fields of an instance, from 0x52. -/
def instanceFields : List Operation :=
  run .f22c [.field] ["iget", "iget-wide", "iget-object", "iget-boolean", "iget-byte",
    "iget-char", "iget-short", "iput", "iput-wide", "iput-object", "iput-boolean",
    "iput-byte", "iput-char", "iput-short"]

/-- Static fields, from 0x60. -/
def staticFields : List Operation :=
  run .f21c [.field] ["sget", "sget-wide", "sget-object", "sget-boolean", "sget-byte",
    "sget-char", "sget-short", "sput", "sput-wide", "sput-object", "sput-boolean",
    "sput-byte", "sput-char", "sput-short"]

/-- Calls, from 0x6e. -/
def calls : List Operation :=
  run .f35c [.method] ["invoke-virtual", "invoke-super", "invoke-direct", "invoke-static",
    "invoke-interface"] ++
    gap 1 ++
    run .f3rc [.method] ["invoke-virtual/range", "invoke-super/range", "invoke-direct/range",
      "invoke-static/range", "invoke-interface/range"] ++
    gap 2

/-- Negations and conversions, from 0x7b. -/
def conversions : List Operation :=
  run .f12x [] ["neg-int", "not-int", "neg-long", "not-long", "neg-float", "neg-double",
    "int-to-long", "int-to-float", "int-to-double", "long-to-int", "long-to-float",
    "long-to-double", "float-to-int", "float-to-long", "float-to-double", "double-to-int",
    "double-to-long", "double-to-float", "int-to-byte", "int-to-char", "int-to-short"]

/-- Arithmetic with three registers, from 0x90. -/
def arithmetic : List Operation :=
  run .f23x [] ["add-int", "sub-int", "mul-int", "div-int", "rem-int", "and-int", "or-int",
    "xor-int", "shl-int", "shr-int", "ushr-int", "add-long", "sub-long", "mul-long",
    "div-long", "rem-long", "and-long", "or-long", "xor-long", "shl-long", "shr-long",
    "ushr-long", "add-float", "sub-float", "mul-float", "div-float", "rem-float",
    "add-double", "sub-double", "mul-double", "div-double", "rem-double"]

/-- Arithmetic with two registers, from 0xb0. -/
def arithmeticInPlace : List Operation :=
  run .f12x [] ["add-int/2addr", "sub-int/2addr", "mul-int/2addr", "div-int/2addr",
    "rem-int/2addr", "and-int/2addr", "or-int/2addr", "xor-int/2addr", "shl-int/2addr",
    "shr-int/2addr", "ushr-int/2addr", "add-long/2addr", "sub-long/2addr", "mul-long/2addr",
    "div-long/2addr", "rem-long/2addr", "and-long/2addr", "or-long/2addr", "xor-long/2addr",
    "shl-long/2addr", "shr-long/2addr", "ushr-long/2addr", "add-float/2addr",
    "sub-float/2addr", "mul-float/2addr", "div-float/2addr", "rem-float/2addr",
    "add-double/2addr", "sub-double/2addr", "mul-double/2addr", "div-double/2addr",
    "rem-double/2addr"]

/-- Arithmetic with a literal, from 0xd0. -/
def literalArithmetic : List Operation :=
  run .f22s [] ["add-int/lit16", "rsub-int", "mul-int/lit16", "div-int/lit16",
    "rem-int/lit16", "and-int/lit16", "or-int/lit16", "xor-int/lit16"] ++
    run .f22b [] ["add-int/lit8", "rsub-int/lit8", "mul-int/lit8", "div-int/lit8",
      "rem-int/lit8", "and-int/lit8", "or-int/lit8", "xor-int/lit8", "shl-int/lit8",
      "shr-int/lit8", "ushr-int/lit8"] ++
    gap 23

/-- Polymorphic and custom calls, from 0xfa. -/
def dynamicCalls : List Operation :=
  run .f45cc [.method, .proto] ["invoke-polymorphic"] ++
    run .f4rcc [.method, .proto] ["invoke-polymorphic/range"] ++
    run .f35c [.callSite] ["invoke-custom"] ++
    run .f3rc [.callSite] ["invoke-custom/range"] ++
    run .f21c [.methodHandle] ["const-method-handle"] ++
    run .f21c [.proto] ["const-method-type"]

/-- All entries, in the order of opcodes. -/
def entries : List Operation :=
  moves ++ results ++ constants ++ objects ++ jumps ++ comparisons ++ conditions ++
    arrayAccesses ++ instanceFields ++ staticFields ++ calls ++ conversions ++
    arithmetic ++ arithmeticInPlace ++ literalArithmetic ++ dynamicCalls

/-- The entries, for look-up. -/
def table : Array Operation :=
  entries.toArray

/-! ## 3. Look-up -/

/-- The entry of an opcode. -/
def ofOpcode (opcode : UInt8) : Operation :=
  table.getD opcode.toNat unassigned

/-- The opcode of a mnemonic (`opcode_for_mnemonic`). -/
def opcode (mnemonic : String) : Except Error UInt8 :=
  match entries.findIdx? fun o => o.isAssigned && o.mnemonic == mnemonic with
  | some place => .ok place.toUInt8
  | none => .error (.invalidMnemonic mnemonic)

end Operation

end Dalvik
