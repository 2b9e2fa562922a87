/-
# What code and data refer to

Strings, types, prototypes, fields and methods are named by value: two references to the same class,
name and prototype are the same method.  A reference read from a container is a bare index into one
of the pools until something resolves it.

Each kind has two spellings in messages: `text`, short, as a reader would write it, and `inspect`,
which shows every part with strings in quotes.
-/
import Dalvik.Text.Quoted

namespace Dalvik

open Text (quoted bracketed record tagged)

/-! ## 1. Prototypes and members -/

/-- A method prototype: its return type and the types of its parameters, as descriptors. -/
structure Proto where
  returnType : String
  parameters : List String := []
  deriving DecidableEq, Repr, Inhabited

/-- A field: the class that defines it, its name and its type. -/
structure FieldRef where
  owner : String
  name : String
  type : String
  deriving DecidableEq, Repr, Inhabited

/-- A method: the class that defines it, its name and its prototype. -/
structure MethodRef where
  owner : String
  name : String
  proto : Proto
  deriving DecidableEq, Repr, Inhabited

/-- The parameters in parentheses, then the return type. -/
def Proto.text (p : Proto) : String :=
  "(" ++ String.join p.parameters ++ ")" ++ p.returnType

/-- The owner, the name and the type. -/
def FieldRef.text (f : FieldRef) : String :=
  f.owner ++ "->" ++ f.name ++ ":" ++ f.type

/-- The owner, the name and the prototype. -/
def MethodRef.text (m : MethodRef) : String :=
  m.owner ++ "->" ++ m.name ++ m.proto.text

/-- The prototype with all its parts. -/
def Proto.inspect (p : Proto) : String :=
  record "Proto" [("return_type", quoted p.returnType),
    ("parameters", bracketed (p.parameters.map quoted))]

/-- The field with all its parts. -/
def FieldRef.inspect (f : FieldRef) : String :=
  record "FieldRef" [("class", quoted f.owner), ("name", quoted f.name), ("type_", quoted f.type)]

/-- The method with all its parts. -/
def MethodRef.inspect (m : MethodRef) : String :=
  record "MethodRef" [("class", quoted m.owner), ("name", quoted m.name),
    ("proto", m.proto.inspect)]

/-! ## 2. Pools -/

/-- The pool that a reference points into. -/
inductive ReferenceKind where
  | string
  | type
  | field
  | method
  | proto
  | callSite
  | methodHandle
  deriving DecidableEq, Repr, Inhabited

namespace ReferenceKind

/-- The name of the pool. -/
def text : ReferenceKind → String
  | string => "string"
  | type => "type"
  | field => "field"
  | method => "method"
  | proto => "proto"
  | callSite => "call site"
  | methodHandle => "method handle"

/-- The kind as a tag. -/
def inspect : ReferenceKind → String
  | string => "String"
  | type => "Type"
  | field => "Field"
  | method => "Method"
  | proto => "Proto"
  | callSite => "CallSite"
  | methodHandle => "MethodHandle"

/-- Every kind. -/
def all : List ReferenceKind :=
  [string, type, field, method, proto, callSite, methodHandle]

/-- The kind of a pool's name. -/
def ofText? (name : String) : Option ReferenceKind :=
  all.find? fun kind => kind.text == name

end ReferenceKind

/-! ## 3. References -/

/-- A reference from an instruction or a value. -/
inductive Reference where
  | string (value : String)
  | type (descriptor : String)
  | field (field : FieldRef)
  | method (method : MethodRef)
  | proto (proto : Proto)
  | callSite (index : UInt32)
  | methodHandle (index : UInt32)
  /-- An index into a pool, not resolved. -/
  | raw (kind : ReferenceKind) (index : UInt32)
  deriving DecidableEq, Repr, Inhabited

namespace Reference

/-- The pool that the reference points into (`kind`). -/
def kind : Reference → ReferenceKind
  | string _ => .string
  | type _ => .type
  | field _ => .field
  | method _ => .method
  | proto _ => .proto
  | callSite _ => .callSite
  | methodHandle _ => .methodHandle
  | raw kind _ => kind

/-- The reference as a reader would write it. -/
def text : Reference → String
  | string value => "string " ++ quoted value
  | type descriptor => "type " ++ descriptor
  | field f => "field " ++ f.text
  | method m => "method " ++ m.text
  | proto p => "proto " ++ p.text
  | callSite index => s!"call_site@{index}"
  | methodHandle index => s!"method_handle@{index}"
  | raw kind index => s!"{kind.text}@{index}"

/-- The reference with all its parts. -/
def inspect : Reference → String
  | string value => tagged "String" [quoted value]
  | type descriptor => tagged "Type" [quoted descriptor]
  | field f => tagged "Field" [f.inspect]
  | method m => tagged "Method" [m.inspect]
  | proto p => tagged "Proto" [p.inspect]
  | callSite index => tagged "CallSite" [toString index]
  | methodHandle index => tagged "MethodHandle" [toString index]
  | raw kind index => record "Index" [("kind", kind.inspect), ("index", toString index)]

end Reference

end Dalvik
