/-
# Causes of failure

Every operation of the library either succeeds or names one cause.  Causes are told apart by
constructor; the text after the cause says which item or value is at fault, and `Error.text` is the
one place that fixes the wording of the whole message.

Two causes are worth locating once they reach the writer of a container: a reference without an
entry and a try range that cannot be written.  `Error.inside` adds the class or method being written
to those, and leaves every other cause alone.
-/
import Dalvik.Text.Hex

namespace Dalvik

/-- Why an operation failed. -/
inductive Error where
  /-- Bytes or code units end in the middle of an item. -/
  | outOfBounds
  /-- The opcode at a code unit offset has no entry in the opcode table. -/
  | unknownOpcode (opcode : UInt8) (offset : Nat)
  /-- A reference, or a shared item, has no entry in the container being written. -/
  | danglingReference (what : String)
  /-- A body already has a label of this name. -/
  | duplicateLabel (name : String)
  /-- Something new was added to a frozen pool. -/
  | frozenPool (pool : String)
  /-- A try range does not fit the code it guards, or has no handlers. -/
  | malformedTryRange (reason : String)
  /-- A host value has no encoded form. -/
  | unsupportedValue (reason : String)
  /-- No opcode has this mnemonic. -/
  | invalidMnemonic (mnemonic : String)
  /-- An operand does not match the layout of its instruction. -/
  | invalidOperand (reason : String)
  /-- A handle does not name a live instruction. -/
  | instructionNotFound
  /-- Input is damaged, or a value does not fit the layout it is written into. -/
  | malformed (reason : String)
  /-- The output buffer cannot be accessed as asked. -/
  | outputBuffer (reason : String)
  /-- The output cannot be brought to its final size and place. -/
  | finalization (reason : String)
  /-- A failure of another kind. -/
  | other (message : String)
  deriving Repr, DecidableEq, Inhabited

namespace Error

/-- The message for a reader. -/
def text : Error → String
  | outOfBounds => "Out of Bound read would have occurred!"
  | unknownOpcode opcode offset =>
    s!"Unknown opcode 0x{Text.hexPadded 2 opcode.toNat} at code unit {offset}"
  | danglingReference what => s!"Dangling reference - {what}"
  | duplicateLabel name => s!"Duplicate label - {name}"
  | frozenPool pool => s!"Attempted to add to the frozen {pool} pool"
  | malformedTryRange reason => s!"Malformed try range - {reason}"
  | unsupportedValue reason => s!"Unsupported encoded value type - {reason}"
  | invalidMnemonic mnemonic => s!"Invalid mnemonic - {mnemonic}"
  | invalidOperand reason => s!"Invalid operand - {reason}"
  | instructionNotFound => "Instruction not found in method body"
  | malformed reason => s!"Malformed - {reason}"
  | outputBuffer reason => s!"Output buffer error - {reason}"
  | finalization reason => s!"Output finalization failed - {reason}"
  | other message => message

/-- **Locating a failure.**  Names the item being written in the causes that concern it
(`within`). -/
def inside (context : String) : Error → Error
  | danglingReference what => danglingReference s!"{what} (in {context})"
  | malformedTryRange reason => malformedTryRange s!"{reason} (in {context})"
  | cause => cause

end Error

/-- A failure is also one of a step that changes a state; the state stays as it is. -/
instance {σ : Type} : MonadLift (Except Error) (EStateM Error σ) where
  monadLift
    | .ok a => pure a
    | .error cause => throw cause

end Dalvik
